import TimeSwitch.Library.Runs

/-! # A replica behind a queue

A primary puts messages into a queue, and a replica takes them out, the oldest first; messages from
elsewhere may reach both at any time.  Some messages tell a value.  `latest` is the value of the replica
once it has taken all messages of a queue.

If every step of the primary tells its value whenever this changes, and the replica believes what it is
told and nothing else, then at any time `latest` of the queue is the value of the primary (`follows`). -/

namespace Replica

variable {σ τ ρ μ α : Type*}

/-! ### The values of a queue -/

section latest

variable (tells : μ → Option α) {q : List μ} {v : α}

/-- The value that is told last, or `v` if none is. -/
def latest (q : List μ) (v : α) : α := q.foldl (fun v m => (tells m).getD v) v

variable {tells}

theorem latest_cons (m : μ) (q : List μ) (v : α) :
    latest tells (m :: q) v = latest tells q ((tells m).getD v) := rfl

theorem latest_append (q r : List μ) (v : α) :
    latest tells (q ++ r) v = latest tells r (latest tells q v) := List.foldl_append ..

theorem latest_quiet (h : ∀ m ∈ q, tells m = none) : latest tells q v = v := by
  induction q with
  | nil => rfl
  | cons m q ih =>
      obtain ⟨hm, hq⟩ := List.forall_mem_cons.mp h
      rw [latest_cons, hm, Option.getD_none, ih hq]

/-- The value of the messages of a log, which is in the reverse order, is that of its first entry with a
value, if each message that is heard tells the value of its entry. -/
theorem latest_log {δ : Type*} {message : δ → μ} {hears : μ → Bool} {value : δ → Option α}
    {log : List δ} (h : ∀ d ∈ log, (if hears (message d) then tells (message d) else none) = value d) :
    latest tells ((log.map message).reverse.filter hears) v = (log.findSome? value).getD v := by
  induction log with
  | nil => rfl
  | cons d log ih =>
      obtain ⟨hd, hlog⟩ := List.forall_mem_cons.mp h
      rw [List.map_cons, List.reverse_cons, List.filter_append, latest_append, ih hlog,
        List.findSome?_cons, ← hd]
      by_cases hh : hears (message d) = true
      · rw [List.filter_cons_of_pos hh, if_pos hh, latest_cons]
        cases tells (message d) with
        | none => rfl
        | some w => rfl
      · rw [List.filter_cons_of_neg hh, if_neg hh]
        rfl

end latest

/-! ### Primary and replica -/

/-- The steps of both on an input and at most one message; those of the primary give messages for the
queue, the oldest first.  The foreign messages may reach the replica. -/
structure System (σ τ ρ μ : Type*) where
  primary : σ → ρ → Option μ → σ × List μ
  replica : τ → ρ → Option μ → τ
  foreign : μ → Prop

/-- The states of both, and the queue. -/
structure Link (σ τ μ : Type*) where
  primary : σ
  replica : τ
  queue : List μ

/-- A step of the primary, one of the replica, or one in which the replica takes a message. -/
inductive Event (ρ μ : Type*) where
  | primary (input : ρ) (message : Option μ)
  | replica (input : ρ) (message : Option μ)
  | take (input : ρ)

variable (S : System σ τ ρ μ)

/-- A step; the primary may receive any message. -/
inductive System.Step (x : Link σ τ μ) : Event ρ μ → Link σ τ μ → Prop
  | primary (c : ρ) (m : Option μ) : System.Step x (.primary c m)
      ⟨(S.primary x.primary c m).1, x.replica, x.queue ++ (S.primary x.primary c m).2⟩
  | replica (c : ρ) (m : Option μ) : (∀ n ∈ m, S.foreign n) → System.Step x (.replica c m)
      ⟨x.primary, S.replica x.replica c m, x.queue⟩
  | take (c : ρ) (m : μ) (q : List μ) : x.queue = m :: q → System.Step x (.take c)
      ⟨x.primary, S.replica x.replica c (some m), q⟩

/-- The condition on the steps of the primary. -/
def Allowed (ok : σ → ρ → Option μ → Prop) (x : Link σ τ μ) : Event ρ μ → Prop
  | .primary c m => ok x.primary c m
  | _ => True

instance (ok : σ → ρ → Option μ → Prop) [∀ s c m, Decidable (ok s c m)] (x : Link σ τ μ) :
    (e : Event ρ μ) → Decidable (Allowed ok x e)
  | .primary c m => inferInstanceAs (Decidable (ok x.primary c m))
  | .replica .. => inferInstanceAs (Decidable True)
  | .take .. => inferInstanceAs (Decidable True)

section once

variable [DecidablePred S.foreign]

/-- `Step` as a function. -/
def System.once (x : Link σ τ μ) : Event ρ μ → Option (Link σ τ μ)
  | .primary c m => some ⟨(S.primary x.primary c m).1, x.replica,
      x.queue ++ (S.primary x.primary c m).2⟩
  | .replica c m =>
      if ∀ n ∈ m, S.foreign n then some ⟨x.primary, S.replica x.replica c m, x.queue⟩ else none
  | .take c =>
      match x.queue with
      | [] => none
      | m :: q => some ⟨x.primary, S.replica x.replica c (some m), q⟩

theorem System.step_of_once (x : Link σ τ μ) (e : Event ρ μ) (x' : Link σ τ μ)
    (h : S.once x e = some x') : S.Step x e x' := by
  cases e with
  | primary c m =>
      obtain rfl := Option.some.inj h
      exact .primary c m
  | replica c m =>
      by_cases hm : ∀ n ∈ m, S.foreign n
      · obtain rfl := Option.some.inj ((if_pos hm).symm.trans h)
        exact .replica c m hm
      · cases (if_neg hm).symm.trans h
  | take c =>
      cases hq : x.queue with
      | nil => simp [System.once, hq] at h
      | cons m q =>
          simp only [System.once, hq] at h
          obtain rfl := Option.some.inj h
          exact .take c m q hq

end once

/-- In states with `I`, which the steps under the condition `ok` keep, the primary tells its value `told`
in messages with `P`, and the replica shows what it is told. -/
structure System.Laws (tells : μ → Option α) (told : σ → α) (shown : τ → α) (I : σ → Prop)
    (P : μ → Prop) (ok : σ → ρ → Option μ → Prop) : Prop where
  keeps : ∀ s c m, I s → ok s c m → I (S.primary s c m).1
  sends : ∀ s c m, I s → ok s c m → ∀ n ∈ (S.primary s c m).2, P n
  primary : ∀ s c m, I s → ok s c m →
    latest tells (S.primary s c m).2 (told s) = told (S.primary s c m).1
  replica : ∀ t c m, (∀ n ∈ m, S.foreign n) → shown (S.replica t c m) = shown t
  take : ∀ t c m, P m → shown (S.replica t c (some m)) = (tells m).getD (shown t)

/-- The messages of the queue have `P`, and with them the replica has the value of the primary. -/
structure Follows (tells : μ → Option α) (told : σ → α) (shown : τ → α) (I : σ → Prop)
    (P : μ → Prop) (x : Link σ τ μ) : Prop where
  primary : I x.primary
  queue : ∀ m ∈ x.queue, P m
  value : latest tells x.queue (shown x.replica) = told x.primary

variable {S} {tells : μ → Option α} {told : σ → α} {shown : τ → α} {I : σ → Prop} {P : μ → Prop}
  {ok : σ → ρ → Option μ → Prop} {x x' : Link σ τ μ} {e : Event ρ μ}

theorem Follows.step (laws : S.Laws tells told shown I P ok) (hok : Allowed ok x e)
    (h : Follows tells told shown I P x) (hs : S.Step x e x') :
    Follows tells told shown I P x' := by
  obtain ⟨hI, hP, hvalue⟩ := h
  cases hs with
  | primary c m =>
      refine ⟨laws.keeps x.primary c m hI hok, fun n hn => ?_, ?_⟩
      · cases List.mem_append.mp hn with
        | inl hn => exact hP n hn
        | inr hn => exact laws.sends x.primary c m hI hok n hn
      · rw [latest_append, hvalue]
        exact laws.primary x.primary c m hI hok
  | replica c m hforeign =>
      refine ⟨hI, hP, ?_⟩
      rw [laws.replica x.replica c m hforeign]
      exact hvalue
  | take c m q hq =>
      rw [hq] at hP hvalue
      obtain ⟨hm, hrest⟩ := List.forall_mem_cons.mp hP
      refine ⟨hI, hrest, ?_⟩
      rw [laws.take x.replica c m hm]
      exact hvalue

/-- **A run** keeps the replica behind the primary. -/
theorem run_follows (laws : S.Laws tells told shown I P ok) {es : List (Event ρ μ)}
    (h0 : Follows tells told shown I P x) (h : Run (Guarded (Allowed ok) S.Step) x es x') :
    Follows tells told shown I P x' :=
  h.invariant (fun _ _ _ hx hs => hx.step laws hs.1 hs.2) h0

end Replica
