import TimeSwitch.Library.Runs

/-! # The connection state

After a configuration the device tells the host on the notification endpoint that the network is
connected, and then how fast it is: the entries of `ConnectionState`, from the last to the first.

* `EVENT_USB_Endpoint_Interrupt` runs with interrupts enabled, apart from its beginning and its end, so an
  activation can be interrupted by another one and by `EVENT_USB_Device_ConfigurationChanged`, but the
  inner one ends first.
* `--ConnectionStateIndex` is a load and a store.
* The parts of the handler for packets are left out. -/

namespace TimeSwitch.Usb

/-! ### The table -/

/-- `USB_Request_Header_t` and `data` -/
structure ConnectionNotice where
  bmRequestType : UInt8
  bRequest : UInt8
  wValue : UInt16
  wIndex : UInt16
  wLength : UInt16
  data : List UInt32
deriving DecidableEq

/-- `REQDIR_DEVICETOHOST | REQTYPE_CLASS | REQREC_INTERFACE` -/
def noticeRequestType : UInt8 := 0x80 ||| 0x20 ||| 0x01
/-- `CDC_NOTIF_ConnectionSpeedChange` -/
def connectionSpeedChange : UInt8 := 0x2A
/-- `CDC_NOTIF_NetworkConnection` -/
def networkConnection : UInt8 := 0x00
/-- `INTERFACE_ID_CDC_CCI` -/
def interfaceIdCci : UInt16 := 0

/-- `ConnectionState` -/
def connectionState : List ConnectionNotice := [
  ⟨noticeRequestType, connectionSpeedChange, 0, interfaceIdCci, 8, [1000000, 1000000]⟩,
  ⟨noticeRequestType, networkConnection, 1, interfaceIdCci, 0, [0, 0]⟩]

/-- `sizeof(USB_Request_Header_t)` -/
def requestHeaderSize : ℕ := 8

/-- `CDC_NOTIFICATION_EPSIZE` -/
def noticeEpSize : ℕ := 32

namespace ConnectionNotice

/-- An entry of the table in memory, on a little-endian target. -/
def memory (n : ConnectionNotice) : List UInt8 :=
  let word (v : UInt16) : List UInt8 := [v.toUInt8, (v >>> 8).toUInt8]
  let long (v : UInt32) : List UInt8 :=
    [v.toUInt8, (v >>> 8).toUInt8, (v >>> 16).toUInt8, (v >>> 24).toUInt8]
  n.bmRequestType :: n.bRequest :: word n.wValue ++ word n.wIndex ++ word n.wLength ++
    n.data.flatMap long

/-- What the handler writes to the endpoint. -/
def bytes (n : ConnectionNotice) : List UInt8 := n.memory.take (requestHeaderSize + n.wLength.toNat)

end ConnectionNotice

/-- What is written of an entry is its header and the bytes that the header announces, and it fits the
endpoint. -/
theorem connectionState_bytes : ∀ n ∈ connectionState,
    n.bytes.length = requestHeaderSize + n.wLength.toNat ∧ n.bytes.length ≤ noticeEpSize := by
  decide

/-! ### The handler -/

/-- Where an activation of the interrupt is: it has found the interrupt of the endpoint enabled and has
switched it off, it has loaded the index, or it only has to end.  `enableNO` tells whether it switches the
interrupt on then. -/
inductive Activation where
  | entered
  | loaded (index : UInt8)
  | leaving (enableNO : Bool)
deriving DecidableEq

/-- The value of `enableNO`. -/
def Activation.enableNO : Activation → Bool
  | .leaving b => b
  | _ => true

/-- `ConnectionStateIndex`, the enable bit of the endpoint's interrupt, and the activations of the
interrupt, the innermost first.  Besides, whether configuration 1 is selected, and which entries were sent
since then. -/
structure Notices where
  index : UInt8
  enabled : Bool
  active : List Activation
  configured : Bool
  sent : List UInt8
deriving DecidableEq

def Notices.init : Notices := ⟨0, false, [], false, []⟩

inductive NoticeEvent where
  /-- The USB interrupt; `enableNO` is read with interrupts disabled. -/
  | interrupt
  /-- `Endpoint_IsINReady`, and the load of the index -/
  | ready (inReady : Bool)
  /-- The store of the index, and the entry -/
  | store
  /-- The end of the handler -/
  | leave
  /-- Configuration 1, with success -/
  | configure
  /-- Another configuration: `Endpoint_ClearEndpoints` -/
  | clear
deriving DecidableEq

/-- A step of the handler, or an event. -/
def noticeStep (x : Notices) : NoticeEvent → Option Notices
  | .interrupt => some { x with
      enabled := false
      active := (if x.enabled then .entered else .leaving false) :: x.active }
  | .ready inReady =>
      match x.active with
      | .entered :: rest => some { x with
          active := (if inReady then .loaded x.index else .leaving true) :: rest }
      | _ => none
  | .store =>
      match x.active with
      | .loaded index :: rest => some { x with
          index := index - 1
          active := .leaving (index - 1 ≠ 0) :: rest
          sent := x.sent ++ [index - 1] }
      | _ => none
  | .leave =>
      match x.active with
      | .leaving enableNO :: rest => some { x with
          enabled := x.enabled || enableNO
          active := rest }
      | _ => none
  | .configure => some { x with
      index := UInt8.ofNat connectionState.length
      enabled := true
      configured := true
      sent := [] }
  | .clear => some { x with enabled := false, configured := false }

def NoticeStep (x : Notices) (e : NoticeEvent) (x' : Notices) : Prop := noticeStep x e = some x'

/-- The activations that have found the interrupt enabled and not given it up. -/
def Notices.holders (x : Notices) : List Activation := x.active.filter Activation.enableNO

/-- The host configures the device only while no activation is to send a notice. -/
def ConfiguresIdle (x : Notices) (e : NoticeEvent) : Prop := e = .configure → x.holders = []

instance (x : Notices) (e : NoticeEvent) : Decidable (ConfiguresIdle x e) :=
  inferInstanceAs (Decidable (_ → _))

/-! ### The invariant -/

/-- The index counts what was sent, at most one activation is to send, and then the interrupt is off. -/
structure Orderly (x : Notices) : Prop where
  progress : x.index = 2 ∧ x.sent = [] ∨ x.index = 1 ∧ x.sent = [1] ∨
    x.index = 0 ∧ (x.sent = [1, 0] ∨ x.sent = [] ∧ x.configured = false)
  holder : x.holders = [] ∨ x.enabled = false ∧ x.index ≠ 0 ∧ ∃ p, x.holders = [p] ∧
    ∀ i, p = .loaded i → i = x.index
  enabled : x.enabled = true → x.index ≠ 0
  finished : x.configured = true → x.enabled = false → x.holders = [] → x.index = 0

theorem orderly_init : Orderly Notices.init :=
  ⟨Or.inr (Or.inr ⟨rfl, Or.inr ⟨rfl, rfl⟩⟩), Or.inl rfl, (fun h => by cases h),
    fun h => by cases h⟩

section steps

variable {x x' : Notices} {e : NoticeEvent} {p : Activation} {rest : List Activation}

theorem holders_cons (h : x.active = p :: rest) :
    x.holders = if p.enableNO then p :: rest.filter Activation.enableNO
      else rest.filter Activation.enableNO := by
  unfold Notices.holders
  rw [h, List.filter_cons]

/-- An activation that is to send is the only one. -/
theorem Orderly.single (h : Orderly x) (ha : x.active = p :: rest) (hp : p.enableNO = true) :
    x.enabled = false ∧ x.index ≠ 0 ∧ rest.filter Activation.enableNO = [] ∧
      ∀ i, p = .loaded i → i = x.index := by
  have hholders := holders_cons ha
  rw [if_pos hp] at hholders
  cases h.holder with
  | inl hnone =>
      rw [hnone] at hholders
      cases hholders
  | inr hone =>
      obtain ⟨hoff, hindex, q, hq, hloaded⟩ := hone
      rw [hq] at hholders
      obtain ⟨rfl, hrest⟩ := List.cons.inj hholders
      exact ⟨hoff, hindex, hrest.symm, hloaded⟩

/-- Such an activation goes on. -/
theorem Orderly.replace (h : Orderly x) (ha : x.active = p :: rest) (hp : p.enableNO = true)
    {q : Activation} (hq : q.enableNO = true) (hloaded : ∀ i, q = .loaded i → i = x.index) :
    Orderly { x with active := q :: rest } := by
  obtain ⟨hoff, hindex, hrest, -⟩ := h.single ha hp
  refine ⟨h.progress, Or.inr ⟨hoff, hindex, q, ?_, hloaded⟩, h.enabled, fun _ _ hc => ?_⟩
  · rw [holders_cons rfl, if_pos hq, hrest]
  · rw [holders_cons rfl, if_pos hq] at hc
    cases hc

/-- A new activation takes the notices over if the interrupt was on. -/
theorem Orderly.enter (h : Orderly x) : Orderly { x with
    enabled := false
    active := (if x.enabled then .entered else .leaving false) :: x.active } := by
  cases hen : x.enabled with
  | true =>
      have hnone : x.holders = [] := by
        refine h.holder.resolve_right fun hone => ?_
        cases hen.symm.trans hone.1
      refine ⟨h.progress, Or.inr ⟨rfl, h.enabled hen, .entered, ?_, fun i hi => by cases hi⟩,
        (fun hc => by cases hc), fun _ _ hc => ?_⟩
      · rw [holders_cons rfl, if_pos rfl]
        exact congrArg (Activation.entered :: ·) hnone
      · rw [holders_cons rfl, if_pos rfl] at hc
        cases hc
  | false =>
      refine ⟨h.progress, ?_, (fun hc => by cases hc), fun hc _ hnone => h.finished hc hen ?_⟩
      · exact h.holder.imp_right fun hone => ⟨rfl, hone.2⟩
      · exact hnone

/-- The entry before the index is sent. -/
theorem Orderly.send {i : UInt8} (h : Orderly x) (ha : x.active = .loaded i :: rest) :
    Orderly { x with
      index := i - 1
      active := .leaving (i - 1 ≠ 0) :: rest
      sent := x.sent ++ [i - 1] } := by
  obtain ⟨hoff, hindex, hrest, hloaded⟩ := h.single ha rfl
  obtain rfl := hloaded i rfl
  rcases h.progress with ⟨h2, hsent⟩ | ⟨h1, hsent⟩ | ⟨h0, -⟩
  · -- `NetworkConnection` is sent, and the interrupt will be switched on again
    have hone : x.index - 1 = 1 := by
      rw [h2]
      decide
    have hmore : x.index - 1 ≠ 0 := by
      rw [hone]
      decide
    refine ⟨Or.inr (Or.inl ⟨hone, by rw [hone, hsent]; rfl⟩),
      Or.inr ⟨hoff, hmore, .leaving true, ?_, fun i hi => by cases hi⟩,
      (fun hc => by cases hoff.symm.trans hc), fun _ _ hc => ?_⟩
    · rw [holders_cons rfl, hone, hrest]
      rfl
    · rw [holders_cons rfl, hone] at hc
      cases hc
  · -- `ConnectionSpeedChange` is sent, and the interrupt stays off
    have hzero : x.index - 1 = 0 := by
      rw [h1]
      decide
    refine ⟨Or.inr (Or.inr ⟨hzero, Or.inl (by rw [hzero, hsent]; rfl)⟩),
      Or.inl ?_, (fun hc => by cases hoff.symm.trans hc), fun _ _ _ => hzero⟩
    rw [holders_cons rfl, hzero, hrest]
    rfl
  · exact absurd h0 hindex

/-- An activation ends, and gives the notices back if it has taken them over. -/
theorem Orderly.leave {b : Bool} (h : Orderly x) (ha : x.active = .leaving b :: rest) :
    Orderly { x with
      enabled := x.enabled || b
      active := rest } := by
  cases b with
  | true =>
      obtain ⟨hoff, hindex, hrest, -⟩ := h.single ha rfl
      exact ⟨h.progress, Or.inl hrest, fun _ => hindex, fun _ hc => by simp at hc⟩
  | false =>
      have hsame : x.holders = rest.filter Activation.enableNO := holders_cons ha
      have hor : (x.enabled || false) = x.enabled := Bool.or_false _
      have hholder := h.holder
      rw [hsame] at hholder
      refine ⟨h.progress, ?_, fun hc => h.enabled (hor.symm.trans hc),
        fun hcon hoff hnone => h.finished hcon (hor.symm.trans hoff) (hsame.trans hnone)⟩
      exact hholder.imp_right fun hone => ⟨hor.trans hone.1, hone.2⟩

/-- **A step** keeps the order. -/
theorem Orderly.step (h : Orderly x) (hidle : ConfiguresIdle x e) (hs : NoticeStep x e x') :
    Orderly x' := by
  unfold NoticeStep noticeStep at hs
  cases e with
  | interrupt =>
      obtain rfl := Option.some.inj hs
      exact h.enter
  | ready inReady =>
      dsimp only at hs
      split at hs
      · rename_i rest ha
        obtain rfl := Option.some.inj hs
        refine h.replace ha rfl (by cases inReady <;> rfl) fun i hi => ?_
        cases inReady with
        | true => exact (Activation.loaded.inj hi).symm
        | false => cases hi
      · cases hs
  | store =>
      dsimp only at hs
      split at hs
      · rename_i index rest ha
        obtain rfl := Option.some.inj hs
        exact h.send ha
      · cases hs
  | leave =>
      dsimp only at hs
      split at hs
      · rename_i enableNO rest ha
        obtain rfl := Option.some.inj hs
        exact h.leave ha
      · cases hs
  | configure =>
      obtain rfl := Option.some.inj hs
      exact ⟨Or.inl ⟨rfl, rfl⟩, Or.inl (hidle rfl), (fun _ => show (2 : UInt8) ≠ 0 by decide),
        fun _ hc => by cases hc⟩
  | clear =>
      obtain rfl := Option.some.inj hs
      refine ⟨?_, ?_, (fun hc => by cases hc), fun hc => by cases hc⟩
      · rcases h.progress with h2 | h1 | ⟨h0, hsent⟩
        · exact Or.inl h2
        · exact Or.inr (Or.inl h1)
        · exact Or.inr (Or.inr ⟨h0, hsent.imp_right fun h => ⟨h.1, rfl⟩⟩)
      · exact h.holder.imp_right fun hone => ⟨rfl, hone.2⟩

end steps

/-- **The notices come in order.**  Activations of the interrupt and configurations may be interleaved in
any way, as long as the host does not configure the device while an activation is to send a notice.  Since
the last configuration the device has sent nothing, or the last entry of the table, or this and then the
first one; the index is in the table, and when no activation is left and the interrupt is off, both were
sent. -/
theorem notices_in_order {es : List NoticeEvent} {x : Notices}
    (h : Run (Guarded ConfiguresIdle NoticeStep) Notices.init es x) :
    x.sent <+: [1, 0] ∧ (∀ i ∈ x.sent, i.toNat < connectionState.length) ∧
      (x.configured = true → x.enabled = false → x.active = [] → x.sent = [1, 0]) := by
  have hx : Orderly x := h.invariant (fun _ _ _ hx hs => hx.step hs.1 hs.2) orderly_init
  have hsent : x.sent <+: [1, 0] := by
    rcases hx.progress with ⟨-, hs⟩ | ⟨-, hs⟩ | ⟨-, hs | ⟨hs, -⟩⟩ <;> rw [hs] <;> decide
  refine ⟨hsent, fun i hi => ?_, fun hcon hoff hactive => ?_⟩
  · have htwo : i = 1 ∨ i = 0 := by simpa using hsent.subset hi
    rcases htwo with rfl | rfl <;> decide
  · have h0 : x.index = 0 := hx.finished hcon hoff (by simp [Notices.holders, hactive])
    rcases hx.progress with ⟨h2, -⟩ | ⟨h1, -⟩ | ⟨-, hs | ⟨-, hc⟩⟩
    · exact absurd (h2.symm.trans h0) (by decide)
    · exact absurd (h1.symm.trans h0) (by decide)
    · exact hs
    · cases hc.symm.trans hcon

/-- An activation is interrupted before it loads the index, and again after it. -/
def nestedEvents : List NoticeEvent :=
  [.configure, .interrupt, .interrupt, .leave, .ready true, .interrupt, .leave, .store, .leave,
    .interrupt, .ready true, .store, .leave]

theorem notices_in_order_nested : ∃ x, Run (Guarded ConfiguresIdle NoticeStep) Notices.init
    nestedEvents x ∧ x.sent = [1, 0] := by
  have h : (Run.exec (Run.guardOnce ConfiguresIdle noticeStep) Notices.init nestedEvents).any
      (fun x => decide (x.configured = true ∧ x.enabled = false ∧ x.active = [])) = true := by
    decide +kernel
  obtain ⟨x, hx, hc⟩ := Run.of_exec_any (Run.of_guardOnce fun _ _ _ h => h) h
  obtain ⟨hcon, hoff, hactive⟩ := of_decide_eq_true hc
  exact ⟨x, hx, (notices_in_order hx).2.2 hcon hoff hactive⟩

/-- The host configures the device again while an activation has not loaded the index.  Two inner
activations send both notices, and the outer one takes the index 255. -/
def reconfiguringEvents : List NoticeEvent :=
  [.configure, .interrupt, .configure, .interrupt, .ready true, .store, .leave, .interrupt,
    .ready true, .store, .leave, .ready true, .store]

theorem notice_behind_table : ∃ x, Run NoticeStep Notices.init reconfiguringEvents x ∧
    x.sent = [1, 0, 255] := by
  have h : (Run.exec noticeStep Notices.init reconfiguringEvents).any
      (fun x => decide (x.sent = [1, 0, 255])) = true := by
    decide +kernel
  obtain ⟨x, hx, hc⟩ := Run.of_exec_any (fun _ _ _ h => h) h
  exact ⟨x, hx, of_decide_eq_true hc⟩

end TimeSwitch.Usb
