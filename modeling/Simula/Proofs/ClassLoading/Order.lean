import Simula.ClassLoading
import Simula.Proofs.Recording

/-!
# The order in which classes are loaded

What a loader does is unknown, but it can be watched: a loader that writes down every call behaves
as before. So the calls of a run are the entries of such a record, each with the state of the loader
in which it was made. Every call is for a class that was ready in that state, no class is lost or
loaded twice, and a queue that is given up has been scanned as often as is allowed.
-/

namespace Simula

variable {σ : Type}

/-- A call of a loader for a pending class. -/
structure LoadCall (σ : Type) where
  entry : PendingClass
  /-- The state of the loader when it is called. -/
  before : σ
  answer : LoadAnswer
  /-- The state of the loader when it answers. -/
  after : σ

/-- What a loader can tell of a call: its state, the name and bytes that it is given, its answer and
its next state. -/
structure CallNote (σ : Type) where
  before : σ
  name : String
  bytes : Bytes
  answer : LoadAnswer
  after : σ

namespace LoadCall

/-- What the loader can tell of the call. -/
def note (c : LoadCall σ) : CallNote σ :=
  ⟨c.before, c.entry.identity.qualifiedName, c.entry.bytes, c.answer, c.after⟩

/-- The class of the call is an interface, or has no real super-class, or its real super-class is
loaded when the loader is called. -/
def Ready (loader : ClassLoader σ) (h : ClassHierarchy) (c : LoadCall σ) : Prop :=
  h.isInterface c.entry.identity = true ∨ h.realSuper? c.entry.identity = none ∨
    ∃ sup, h.realSuper? c.entry.identity = some sup ∧ loader.isLoaded c.before sup = true

/-- Whether the class of the call was loaded. -/
def succeeded (c : LoadCall σ) : Bool := c.answer = .loaded

/-- The classes that some calls have loaded, in order. -/
def loadedBy (calls : List (LoadCall σ)) : List PendingClass :=
  (calls.filter succeeded).map (·.entry)

/-- No class has been loaded by no calls. -/
@[simp] theorem loadedBy_nil : loadedBy ([] : List (LoadCall σ)) = [] := rfl

/-- A call that succeeds loads its class first. -/
theorem loadedBy_cons_of_loaded {c : LoadCall σ} (h : c.answer = .loaded)
    (calls : List (LoadCall σ)) : loadedBy (c :: calls) = c.entry :: loadedBy calls := by
  simp [loadedBy, succeeded, h]

/-- A call that does not succeed loads no class. -/
theorem loadedBy_cons_of_ne {c : LoadCall σ} (h : c.answer ≠ .loaded)
    (calls : List (LoadCall σ)) : loadedBy (c :: calls) = loadedBy calls := by
  simp [loadedBy, succeeded, h]

/-- Calls in two parts load the classes of both. -/
theorem loadedBy_append (calls calls' : List (LoadCall σ)) :
    loadedBy (calls ++ calls') = loadedBy calls ++ loadedBy calls' := by
  simp [loadedBy]

end LoadCall

/-- A class is ready as an interface, without a real super-class, or after it. -/
theorem ClassHierarchy.isReady_iff {h : ClassHierarchy} {isLoaded : ClassIdentity → Bool}
    {c : ClassIdentity} :
    h.isReady isLoaded c = true ↔ h.isInterface c = true ∨ h.realSuper? c = none ∨
      ∃ sup, h.realSuper? c = some sup ∧ isLoaded sup = true := by
  rw [isReady, Bool.or_eq_true]
  cases h.realSuper? c <;> simp

namespace ClassLoader

/-- The loader, writing down every call. -/
def recorded (loader : ClassLoader σ) : ClassLoader (σ × List (CallNote σ)) where
  isLoaded s := loader.isLoaded s.1
  load s name bytes :=
    let (answer, after) := loader.load s.1 name bytes
    (answer, after, s.2 ++ [⟨s.1, name, bytes, answer, after⟩])

/-- Calls of the loader one after the other, each answered in the state that the one before has
left. -/
inductive Calls (loader : ClassLoader σ) : σ → List (LoadCall σ) → σ → Prop
  | nil (s : σ) : Calls loader s [] s
  | cons {c : LoadCall σ} {calls : List (LoadCall σ)} {s : σ}
    (answered : loader.load c.before c.entry.identity.qualifiedName c.entry.bytes =
      (c.answer, c.after))
    (rest : Calls loader c.after calls s) : Calls loader c.before (c :: calls) s

/-- The loader answers calls in a row if it answers the first ones and then the others. -/
theorem Calls.append {loader : ClassLoader σ} {s s₁ s' : σ} {calls calls' : List (LoadCall σ)}
    (hcalls : loader.Calls s calls s₁) (hcalls' : loader.Calls s₁ calls' s') :
    loader.Calls s (calls ++ calls') s' := by
  induction hcalls with
  | nil s => exact hcalls'
  | cons answered _ ih => exact .cons answered (ih hcalls')

/-- Every call is one of the loader. -/
theorem Calls.load_eq {loader : ClassLoader σ} {s s' : σ} {calls : List (LoadCall σ)}
    (hcalls : loader.Calls s calls s') : ∀ c ∈ calls,
      loader.load c.before c.entry.identity.qualifiedName c.entry.bytes = (c.answer, c.after) := by
  induction hcalls with
  | nil s => simp
  | cons answered _ ih => exact List.forall_mem_cons.mpr ⟨answered, ih⟩

/-- What a run does from a state, it does by the given calls: they are for classes of the queue that
are ready, they lead to the state that the run leaves behind, and they are what the same run with
the recording loader writes down. -/
structure Explains (loader : ClassLoader σ) (h : ClassHierarchy) (queue : List PendingClass)
    {α : Type} (x : Run σ α) (y : Run (σ × List (CallNote σ)) α) (s : σ)
    (calls : List (LoadCall σ)) : Prop where
  pending : ∀ c ∈ calls, c.entry ∈ queue
  ready : ∀ c ∈ calls, c.Ready loader h
  answered : loader.Calls s calls (leaves x s)
  recorded : ∀ log, y (s, log) = beside (log ++ calls.map (·.note)) (x s)

namespace Explains

variable {loader : ClassLoader σ} {h : ClassHierarchy} {queue queue' : List PendingClass}
variable {α β : Type} {x : Run σ α} {y : Run (σ × List (CallNote σ)) α} {s s' : σ}
variable {f : α → Run σ β} {g : α → Run (σ × List (CallNote σ)) β}
variable {calls calls' : List (LoadCall σ)}

/-- A run that succeeds has made its calls up to the state that it leaves. -/
theorem answered_of_ok {a : α} (hx : loader.Explains h queue x y s calls) (heq : x s = .ok a s') :
    loader.Calls s calls s' :=
  leaves_of_ok heq ▸ hx.answered

/-- A run that succeeds has been written down call by call. -/
theorem recorded_of_ok {a : α} (hx : loader.Explains h queue x y s calls) (heq : x s = .ok a s')
    (log : List (CallNote σ)) : y (s, log) = .ok a (s', log ++ calls.map (·.note)) := by
  have hy := hx.recorded log
  rwa [heq] at hy

/-- Giving a value back makes no call. -/
theorem pure (loader : ClassLoader σ) (h : ClassHierarchy) (queue : List PendingClass) (a : α)
    (s : σ) : loader.Explains h queue (Pure.pure a) (Pure.pure a) s [] where
  pending := by simp
  ready := by simp
  answered := .nil s
  recorded log := by simp [beside]

/-- A failure by itself makes no call. -/
theorem throw (loader : ClassLoader σ) (h : ClassHierarchy) (queue : List PendingClass)
    (e : Error) (s : σ) : loader.Explains h queue (MonadExcept.throw e : Run σ α)
      (MonadExcept.throw e) s [] where
  pending := by simp
  ready := by simp
  answered := .nil s
  recorded log := by simp [beside]

/-- A queue that has more classes has those of the calls, too. -/
theorem mono (hx : loader.Explains h queue x y s calls) (hqueue : queue ⊆ queue') :
    loader.Explains h queue' x y s calls :=
  { hx with pending := fun c hc => hqueue (hx.pending c hc) }

/-- A sequence makes the calls of its first part, and then those of the second. -/
theorem bind {a : α} (hx : loader.Explains h queue x y s calls) (heq : x s = .ok a s')
    (hf : loader.Explains h queue (f a) (g a) s' calls') :
    loader.Explains h queue (x >>= f) (y >>= g) s (calls ++ calls') where
  pending c hc := (List.mem_append.mp hc).elim (hx.pending c) (hf.pending c)
  ready c hc := (List.mem_append.mp hc).elim (hx.ready c) (hf.ready c)
  answered := by
    rw [leaves_bind_of_ok heq]
    exact (hx.answered_of_ok heq).append hf.answered
  recorded log := by
    rw [bind_of_ok heq, bind_of_ok (hx.recorded_of_ok heq log), hf.recorded, List.map_append,
      List.append_assoc]

/-- A sequence that fails in its first part makes the calls of that part. -/
theorem bind_error {e : Error} (hx : loader.Explains h queue x y s calls)
    (heq : x s = .error e s') : loader.Explains h queue (x >>= f) (y >>= g) s calls where
  pending := hx.pending
  ready := hx.ready
  answered := by
    rw [leaves_of_error (bind_of_error heq), ← leaves_of_error heq]
    exact hx.answered
  recorded log := by
    have hy := hx.recorded log
    rw [heq] at hy
    rw [bind_of_error heq, bind_of_error hy]
    rfl

/-- A run makes the same calls whatever becomes of its result. -/
theorem map (hx : loader.Explains h queue x y s calls) (k : α → β) :
    loader.Explains h queue (x >>= fun a => Pure.pure (k a)) (y >>= fun a => Pure.pure (k a)) s
      calls := by
  cases heq : x s with
  | ok a s' =>
    have hreturn := hx.bind (f := fun a => Pure.pure (k a)) (g := fun a => Pure.pure (k a)) heq
      (.pure loader h queue (k a) s')
    rwa [List.append_nil] at hreturn
  | error e s' => exact hx.bind_error heq

/-- Runs that do the same from a state make the same calls from there. -/
theorem congr (hx : loader.Explains h queue x y s calls) {x' : Run σ α}
    {y' : Run (σ × List (CallNote σ)) α} (hx' : x' s = x s)
    (hy' : ∀ log, y' (s, log) = y (s, log)) : loader.Explains h queue x' y' s calls where
  pending := hx.pending
  ready := hx.ready
  answered := by
    rw [leaves, hx']
    exact hx.answered
  recorded log := by rw [hy', hx', hx.recorded]

/-- A run that starts with a call goes on from the answer of the loader. -/
theorem cons {c : LoadCall σ} (hx : loader.Explains h queue x y c.after calls)
    (hpending : c.entry ∈ queue) (hready : c.Ready loader h)
    (hanswer : loader.load c.before c.entry.identity.qualifiedName c.entry.bytes =
      (c.answer, c.after))
    {x' : Run σ α} {y' : Run (σ × List (CallNote σ)) α} (hx' : x' c.before = x c.after)
    (hy' : ∀ log, y' (c.before, log) = y (c.after, log ++ [c.note])) :
    loader.Explains h queue x' y' c.before (c :: calls) where
  pending := List.forall_mem_cons.mpr ⟨hpending, hx.pending⟩
  ready := List.forall_mem_cons.mpr ⟨hready, hx.ready⟩
  answered := by
    rw [leaves, hx']
    exact .cons hanswer hx.answered
  recorded log := by
    rw [hy', hx', hx.recorded]
    simp

end Explains

/-- The classes of a queue are those that some calls have loaded, in the given order, and those that
are left; none of the calls was rejected. -/
structure Divides (calls : List (LoadCall σ)) (queue : List PendingClass)
    (order : List ClassIdentity) (left : List PendingClass) : Prop where
  order_eq : order = (LoadCall.loadedBy calls).map (·.identity)
  perm : (LoadCall.loadedBy calls ++ left).Perm queue
  accepted : ∀ c ∈ calls, ∀ message, c.answer ≠ .rejected message

namespace Divides

variable {calls : List (LoadCall σ)} {queue left : List PendingClass} {order : List ClassIdentity}
variable {c : LoadCall σ}

/-- A class that is not offered is left. -/
theorem keep (hd : Divides calls queue order left) (p : PendingClass) :
    Divides calls (p :: queue) order (p :: left) :=
  { hd with perm := List.perm_middle.trans (hd.perm.cons p) }

/-- A class that is loaded is the first in the order. -/
theorem loaded (hd : Divides calls queue order left) (hc : c.answer = .loaded) :
    Divides (c :: calls) (c.entry :: queue) (c.entry.identity :: order) left where
  order_eq := by rw [LoadCall.loadedBy_cons_of_loaded hc, List.map_cons, hd.order_eq]
  perm := by
    rw [LoadCall.loadedBy_cons_of_loaded hc]
    exact hd.perm.cons c.entry
  accepted := by simpa [hc] using hd.accepted

/-- A class that lacks another one is left. -/
theorem missing (hd : Divides calls queue order left) (hc : c.answer = .dependencyMissing) :
    Divides (c :: calls) (c.entry :: queue) order (c.entry :: left) where
  order_eq := by rw [LoadCall.loadedBy_cons_of_ne (by simp [hc]), hd.order_eq]
  perm := by
    rw [LoadCall.loadedBy_cons_of_ne (by simp [hc])]
    exact (hd.keep c.entry).perm
  accepted := by simpa [hc] using hd.accepted

/-- What is left was in the queue. -/
theorem left_subset (hd : Divides calls queue order left) : left ⊆ queue := fun _ hp =>
  hd.perm.subset (List.mem_append_right _ hp)

/-- What is left is scanned again. -/
theorem append {calls' : List (LoadCall σ)} {order' : List ClassIdentity}
    {left' : List PendingClass} (hd : Divides calls queue order left)
    (hd' : Divides calls' left order' left') :
    Divides (calls ++ calls') queue (order ++ order') left' where
  order_eq := by rw [LoadCall.loadedBy_append, List.map_append, hd.order_eq, hd'.order_eq]
  perm := by
    rw [LoadCall.loadedBy_append, List.append_assoc]
    exact (hd'.perm.append_left _).trans hd.perm
  accepted c hc := (List.mem_append.mp hc).elim (hd.accepted c) (hd'.accepted c)

end Divides

/-- The last of the calls was rejected, and the error says so. -/
def Refused (calls : List (LoadCall σ)) (e : Error) : Prop :=
  ∃ c ∈ calls.getLast?, ∃ message, c.answer = .rejected message ∧
    e = .classLoad c.entry.identity.qualifiedName message

/-- Calls before the last one do not matter. -/
theorem Refused.append {calls : List (LoadCall σ)} {e : Error} (h : Refused calls e)
    (earlier : List (LoadCall σ)) : Refused (earlier ++ calls) e := by
  obtain ⟨c, hc, hrejected⟩ := h
  exact ⟨c, by rw [Option.mem_def] at hc; simp [hc], hrejected⟩

/-- How a scan goes on when its first class has been offered to the loader. -/
def resume (loader : ClassLoader σ) (h : ClassHierarchy) (p : PendingClass)
    (rest : List PendingClass) : LoadAnswer → Run σ (List ClassIdentity × List PendingClass)
  | .loaded => loader.pass h rest >>= fun r => pure (p.identity :: r.1, r.2)
  | .dependencyMissing => loader.pass h rest >>= fun r => pure (r.1, p :: r.2)
  | .rejected message => throw (.classLoad p.identity.qualifiedName message)

section

variable (loader : ClassLoader σ) {h : ClassHierarchy} {p : PendingClass}
variable (rest : List PendingClass) {s s₁ : σ}

/-- A class that is not ready stays in the queue. -/
theorem pass_cons_of_waiting (hready : ¬ h.isReady (loader.isLoaded s) p.identity = true) :
    loader.pass h (p :: rest) s =
      (loader.pass h rest >>= fun r => pure (r.1, p :: r.2) :
        Run σ (List ClassIdentity × List PendingClass)) s := by
  rw [pass, bind_of_ok (get_apply s), if_neg hready]

/-- A class that is ready is offered to the loader. -/
theorem pass_cons_of_ready (hready : h.isReady (loader.isLoaded s) p.identity = true)
    {answer : LoadAnswer}
    (hload : loader.load s p.identity.qualifiedName p.bytes = (answer, s₁)) :
    loader.pass h (p :: rest) s = loader.resume h p rest answer s₁ := by
  have hrequest : loader.request p s = .ok answer s₁ := by rw [request, hload]
  rw [pass, bind_of_ok (get_apply s), if_pos hready, bind_of_ok hrequest]
  cases answer <;> rfl

/-- The recording loader makes a note of the class that it is given. -/
theorem recorded_load {answer : LoadAnswer}
    (hload : loader.load s p.identity.qualifiedName p.bytes = (answer, s₁))
    (log : List (CallNote σ)) :
    loader.recorded.load (s, log) p.identity.qualifiedName p.bytes =
      (answer, s₁, log ++ [LoadCall.note ⟨p, s, answer, s₁⟩]) := by
  simp only [recorded, hload]
  rfl

end

/-- The run succeeds with a result and a state that are in `P`, or fails with an error and a state
that are in `E`. -/
def Yields {α : Type} (x : Run σ α) (s : σ) (P : α → σ → Prop) (E : Error → σ → Prop) : Prop :=
  match x s with
  | .ok a s' => P a s'
  | .error e s' => E e s'

namespace Yields

variable {α β : Type} {x : Run σ α} {s s' : σ} {P : α → σ → Prop} {Q : β → σ → Prop}
variable {E F : Error → σ → Prop}

/-- A run that succeeds does so in `P`. -/
theorem of_ok {a : α} (hx : Yields x s P E) (heq : x s = .ok a s') : P a s' := by
  rwa [Yields, heq] at hx

/-- A run that fails does so in `E`. -/
theorem of_error {e : Error} (hx : Yields x s P E) (heq : x s = .error e s') : E e s' := by
  rwa [Yields, heq] at hx

/-- What becomes of the result of a run. -/
theorem map (hx : Yields x s P E) {k : α → β} (hP : ∀ a s', P a s' → Q (k a) s')
    (hE : ∀ e s', E e s' → F e s') : Yields (x >>= fun a => pure (k a)) s Q F := by
  rw [Yields]
  cases heq : x s with
  | ok a s' =>
    rw [bind_of_ok heq]
    exact hP a s' (hx.of_ok heq)
  | error e s' =>
    rw [bind_of_error heq]
    exact hE e s' (hx.of_error heq)

end Yields

/-- **One scan.** A scan of a queue offers classes to the loader that are ready, and divides the
queue into the classes that were loaded and the ones that are left, unless a class is rejected. -/
theorem exists_calls_pass (loader : ClassLoader σ) (h : ClassHierarchy)
    (queue : List PendingClass) (s : σ) :
    ∃ calls, loader.Explains h queue (loader.pass h queue) (loader.recorded.pass h queue) s calls ∧
      Yields (loader.pass h queue) s (fun r _ => Divides calls queue r.1 r.2)
        fun e _ => Refused calls e := by
  induction queue generalizing s with
  | nil => exact ⟨[], .pure .., rfl, .refl _, by simp⟩
  | cons p rest ih =>
    by_cases hready : h.isReady (loader.isLoaded s) p.identity = true
    · obtain ⟨answer, s₁, hload⟩ : ∃ answer s₁,
          loader.load s p.identity.qualifiedName p.bytes = (answer, s₁) := ⟨_, _, rfl⟩
      have hpass : loader.pass h (p :: rest) s = loader.resume h p rest answer s₁ :=
        loader.pass_cons_of_ready rest hready hload
      have hcall : ∀ {calls}, loader.Explains h (p :: rest) (loader.resume h p rest answer)
            (loader.recorded.resume h p rest answer) s₁ calls →
          loader.Explains h (p :: rest) (loader.pass h (p :: rest))
            (loader.recorded.pass h (p :: rest)) s (⟨p, s, answer, s₁⟩ :: calls) := fun hx =>
        .cons (c := ⟨p, s, answer, s₁⟩) hx List.mem_cons_self (ClassHierarchy.isReady_iff.mp hready)
          hload hpass fun log =>
            loader.recorded.pass_cons_of_ready rest hready (loader.recorded_load hload log)
      obtain ⟨calls, hrest, hyields⟩ := ih s₁
      replace hrest := hrest.mono (List.subset_cons_self p rest)
      simp only [Yields, hpass]
      cases answer with
      | loaded =>
        exact ⟨_, hcall (hrest.map _), hyields.map
          (fun _ _ hd => hd.loaded (c := ⟨p, s, .loaded, s₁⟩) rfl) fun _ _ he => he.append [_]⟩
      | dependencyMissing =>
        exact ⟨_, hcall (hrest.map _), hyields.map
          (fun _ _ hd => hd.missing (c := ⟨p, s, .dependencyMissing, s₁⟩) rfl)
          fun _ _ he => he.append [_]⟩
      | rejected message =>
        exact ⟨_, hcall (.throw ..), ⟨p, s, .rejected message, s₁⟩, rfl, message, rfl, rfl⟩
    · obtain ⟨calls, hrest, hyields⟩ := ih s
      have hpass := loader.pass_cons_of_waiting rest hready
      refine ⟨calls, ((hrest.map _).mono (List.subset_cons_self p rest)).congr hpass fun log =>
        loader.recorded.pass_cons_of_waiting rest hready, ?_⟩
      simp only [Yields, hpass]
      exact hyields.map (fun _ _ hd => hd.keep p) fun _ _ he => he

/-- A number of scans, one after the other, each of the queue that the one before has left; the
classes loaded, in order, and the queue in the end. -/
inductive Scans (loader : ClassLoader σ) (h : ClassHierarchy) :
    Nat → List PendingClass → σ → List ClassIdentity → List PendingClass → σ → Prop
  | none (queue : List PendingClass) (s : σ) : Scans loader h 0 queue s [] queue s
  | more {n : Nat} {queue left left' : List PendingClass} {s s₁ s' : σ}
    {order order' : List ClassIdentity} (queued : queue ≠ [])
    (scan : loader.pass h queue s = .ok (order, left) s₁)
    (rest : Scans loader h n left s₁ order' left' s') :
    Scans loader h (n + 1) queue s (order ++ order') left' s'

/-- A queue that is not empty is scanned, and then the queue that is left. -/
theorem passes_cons (loader : ClassLoader σ) (h : ClassHierarchy) (limit n : Nat)
    (p : PendingClass) (rest : List PendingClass) :
    loader.passes h limit (n + 1) (p :: rest) =
      loader.pass h (p :: rest) >>= fun r =>
        loader.passes h limit n r.2 >>= fun order => pure (r.1 ++ order) :=
  rfl

/-- What scanning a queue at most `n` times does. -/
theorem exists_calls_passes (loader : ClassLoader σ) (h : ClassHierarchy) (limit n : Nat)
    (queue : List PendingClass) (s : σ) :
    ∃ calls, loader.Explains h queue (loader.passes h limit n queue)
        (loader.recorded.passes h limit n queue) s calls ∧
      Yields (loader.passes h limit n queue) s
        (fun order s' => Divides calls queue order [] ∧
          ∃ m ≤ n, loader.Scans h m queue s order [] s')
        fun e s' => Refused calls e ∨ ∃ order left, left ≠ [] ∧ Divides calls queue order left ∧
          loader.Scans h n queue s order left s' ∧
          e = .internal (.gaveUp limit (left.map fun p => p.identity.qualifiedName)) := by
  induction n generalizing queue s with
  | zero =>
    cases queue with
    | nil => exact ⟨[], .pure .., ⟨rfl, .refl _, by simp⟩, 0, Nat.le_refl 0, .none [] s⟩
    | cons p rest =>
      exact ⟨[], .throw .., .inr ⟨[], p :: rest, by simp, ⟨rfl, .refl _, by simp⟩, .none _ s, rfl⟩⟩
  | succ n ih =>
    cases queue with
    | nil => exact ⟨[], .pure .., ⟨rfl, .refl _, by simp⟩, 0, Nat.zero_le _, .none [] s⟩
    | cons p rest =>
      obtain ⟨calls, hscan, hyields⟩ := loader.exists_calls_pass h (p :: rest) s
      cases heq : loader.pass h (p :: rest) s with
      | error e s₁ =>
        refine ⟨calls, hscan.bind_error heq, ?_⟩
        rw [Yields, passes_cons, bind_of_error heq]
        exact .inl (hyields.of_error heq)
      | ok r s₁ =>
        obtain ⟨order, left⟩ := r
        have hd : Divides calls (p :: rest) order left := hyields.of_ok heq
        obtain ⟨calls', hrest, hyields'⟩ := ih left s₁
        refine ⟨calls ++ calls', hscan.bind heq ((hrest.mono hd.left_subset).map (order ++ ·)), ?_⟩
        rw [Yields, passes_cons, bind_of_ok heq]
        refine hyields'.map ?_ ?_
        · rintro order' s' ⟨hd', m, hm, hscans⟩
          exact ⟨hd.append hd', m + 1, Nat.succ_le_succ hm, .more (by simp) heq hscans⟩
        · rintro e s' (hrefused | ⟨order', left', hne, hd', hscans, rfl⟩)
          · exact .inl (hrefused.append calls)
          · exact .inr ⟨_, left', hne, hd.append hd', .more (by simp) heq hscans, rfl⟩

/-- **The order of class loading.** Whatever the loader does, the calls that it is given can be
listed with the pending classes they are for. Each is for a class that is ready in the state in
which the loader is called. If all classes are loaded, then each of the queue was loaded by just one
call, in the order that is given back, and no call was rejected. If the queue is given up, it was
scanned exactly as often as is allowed, and the classes reported are those of the queue that no call
has loaded. Any other failure is that of a call that was rejected. -/
theorem loadAll_ordered (loader : ClassLoader σ) (h : ClassHierarchy) (limit : Nat)
    (queue : List PendingClass) (s : σ) :
    ∃ calls : List (LoadCall σ),
      loader.recorded.loadAll h limit queue (s, []) =
        beside (calls.map (·.note)) (loader.loadAll h limit queue s) ∧
      (∀ c ∈ calls, c.entry ∈ queue ∧ c.Ready loader h) ∧
      match loader.loadAll h limit queue s with
      | .ok order _ =>
        order = (LoadCall.loadedBy calls).map (·.identity) ∧
        (LoadCall.loadedBy calls).Perm queue ∧ order.Perm (queue.map (·.identity)) ∧
        ∀ c ∈ calls, ∀ message, c.answer ≠ .rejected message
      | .error (.internal fault) s' =>
        ∃ order left, loader.Scans h limit queue s order left s' ∧ left ≠ [] ∧
          fault = .gaveUp limit (left.map fun p => p.identity.qualifiedName) ∧
          order = (LoadCall.loadedBy calls).map (·.identity) ∧
          (LoadCall.loadedBy calls ++ left).Perm queue ∧
          ∀ c ∈ calls, ∀ message, c.answer ≠ .rejected message
      | .error e _ => Refused calls e := by
  obtain ⟨calls, hexplains, hyields⟩ := loader.exists_calls_passes h limit limit queue s
  refine ⟨calls, hexplains.recorded [], fun c hc => ⟨hexplains.pending c hc, hexplains.ready c hc⟩,
    ?_⟩
  cases heq : loader.loadAll h limit queue s with
  | ok order s' =>
    obtain ⟨hd, -⟩ := hyields.of_ok heq
    have hperm : (LoadCall.loadedBy calls).Perm queue := by simpa using hd.perm
    exact ⟨hd.order_eq, hperm, hd.order_eq ▸ hperm.map _, hd.accepted⟩
  | error e s' =>
    rcases hyields.of_error heq with hrefused | ⟨order, left, hne, hd, hscans, rfl⟩
    · obtain ⟨c, hc, message, hanswer, rfl⟩ := hrefused
      exact ⟨c, hc, message, hanswer, rfl⟩
    · exact ⟨order, left, hscans, hne, rfl, hd.order_eq, hd.perm, hd.accepted⟩

end ClassLoader

end Simula
