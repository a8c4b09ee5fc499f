import Mathlib.Data.Set.Insert
import Simula.Proofs.ClassLoading.Order

/-!
# When all classes can be loaded

A loader that keeps a set of loaded classes, rejects some names, and holds others back until one
class that they need is there loads a queue exactly if it can: no class of the queue is rejected,
and each can be derived from the classes loaded at the start by taking super-class and needed class
before the class itself. The order of the queue does not matter, and as many scans as there are
classes suffice: as long as classes are left, one of them has all that it requires, and the next
scan loads it.
-/

namespace Simula

namespace ClassIdentity

/-- A text without a slash cannot be split at one. -/
theorem splitLastSlash_eq_none {text : List Char} (h : '/' ∉ text) :
    splitLastSlash text = none := by
  induction text with
  | nil => rfl
  | cons c rest ih =>
    rw [List.mem_cons, not_or] at h
    simp [splitLastSlash, ih h.2, Ne.symm h.1]

/-- A text is split before the part that has no slash. -/
theorem splitLastSlash_append {before after : List Char} (h : '/' ∉ after) :
    splitLastSlash (before ++ '/' :: after) = some (before, after) := by
  induction before with
  | nil => simp [splitLastSlash, splitLastSlash_eq_none h]
  | cons c rest ih => simp [splitLastSlash, ih]

/-- An identity whose name has no slash can be told from its text. -/
theorem parse_qualifiedName {c : ClassIdentity} (h : '/' ∉ c.name.toList) :
    parse c.qualifiedName = c := by
  obtain ⟨package, name⟩ := c
  by_cases hpackage : package = ""
  · subst hpackage
    simp [qualifiedName, parse, splitLastSlash_eq_none h]
  · have htext : (package ++ "/" ++ name).toList = package.toList ++ '/' :: name.toList := by simp
    simp [qualifiedName, hpackage, parse, htext, splitLastSlash_append h]

end ClassIdentity

/-- What a loader with a set of loaded classes does with a name: whether it rejects it, and which
class it needs for it. -/
structure LoadPolicy where
  rejected : String → Prop
  needed : String → Option ClassIdentity

variable {σ : Type}

namespace ClassLoader

/-- The loader has a set of loaded classes. It rejects certain names, holds a name back while the
class needed for it is not in the set, and otherwise adds the class of the name to the set. -/
structure SetBased (loader : ClassLoader σ) (policy : LoadPolicy)
    (loaded : σ → Set ClassIdentity) : Prop where
  isLoaded_iff : ∀ s c, loader.isLoaded s c = true ↔ c ∈ loaded s
  rejects : ∀ s name bytes, policy.rejected name →
    ∃ message, (loader.load s name bytes).1 = .rejected message
  waits : ∀ s name bytes c, ¬ policy.rejected name → policy.needed name = some c → c ∉ loaded s →
    (loader.load s name bytes).1 = .dependencyMissing ∧
      loaded (loader.load s name bytes).2 = loaded s
  accepts : ∀ s name bytes, ¬ policy.rejected name →
    (∀ c, policy.needed name = some c → c ∈ loaded s) →
    (loader.load s name bytes).1 = .loaded ∧
      loaded (loader.load s name bytes).2 = insert (ClassIdentity.parse name) (loaded s)

end ClassLoader

/-- The second class must be loaded before the first: it is its real super-class, unless the first
is an interface, or it is needed for it. -/
def Requires (h : ClassHierarchy) (policy : LoadPolicy) (c d : ClassIdentity) : Prop :=
  h.isInterface c = false ∧ h.realSuper? c = some d ∨ policy.needed c.qualifiedName = some d

/-- The classes of a queue that can be loaded one after the other: every class that they require is
loaded at the start or can be loaded before. -/
inductive Derivable (h : ClassHierarchy) (policy : LoadPolicy) (queue : List PendingClass)
    (initial : Set ClassIdentity) : ClassIdentity → Prop
  | pending {p : PendingClass} (mem : p ∈ queue)
    (required : ∀ d, Requires h policy p.identity d → d ∉ initial →
      Derivable h policy queue initial d) :
    Derivable h policy queue initial p.identity

/-- Another order of the queue makes no difference to what can be loaded. -/
theorem Derivable.mono {h : ClassHierarchy} {policy : LoadPolicy}
    {queue queue' : List PendingClass} {initial : Set ClassIdentity} {c : ClassIdentity}
    (hc : Derivable h policy queue initial c) (hqueue : queue ⊆ queue') :
    Derivable h policy queue' initial c := by
  induction hc with
  | pending mem _ ih => exact .pending (hqueue mem) ih

namespace ClassLoader

section

variable {loader : ClassLoader σ} {h : ClassHierarchy} {policy : LoadPolicy}
variable {loaded : σ → Set ClassIdentity} {queue left : List PendingClass} {s s' : σ}
variable {order : List ClassIdentity} (hset : loader.SetBased policy loaded)
include hset

/-- A class that has all that it requires is ready. -/
theorem SetBased.isReady {c : ClassIdentity} (hc : ∀ d, Requires h policy c d → d ∈ loaded s) :
    h.isReady (loader.isLoaded s) c = true := by
  rw [ClassHierarchy.isReady_iff]
  cases hinterface : h.isInterface c with
  | true => exact .inl rfl
  | false =>
    cases hsuper : h.realSuper? c with
    | none => exact .inr (.inl rfl)
    | some sup =>
      have hsup := (hset.isLoaded_iff s sup).mpr (hc sup (.inl ⟨hinterface, hsuper⟩))
      exact .inr (.inr ⟨sup, rfl, hsup⟩)

/-- What the loader does with a name: it rejects it, it holds it back and keeps its set, or it adds
the class of the name to its set. -/
theorem SetBased.load_cases {name : String} {bytes : Bytes} {answer : LoadAnswer}
    (hanswer : loader.load s name bytes = (answer, s')) :
    (policy.rejected name ∧ ∃ message, answer = .rejected message) ∨
    ¬ policy.rejected name ∧
      ((∃ d, policy.needed name = some d ∧ d ∉ loaded s) ∧ answer = .dependencyMissing ∧
          loaded s' = loaded s ∨
        (∀ d, policy.needed name = some d → d ∈ loaded s) ∧ answer = .loaded ∧
          loaded s' = insert (ClassIdentity.parse name) (loaded s)) := by
  by_cases hrejected : policy.rejected name
  · have hrejects := hset.rejects s name bytes hrejected
    rw [hanswer] at hrejects
    exact .inl ⟨hrejected, hrejects⟩
  · refine .inr ⟨hrejected, ?_⟩
    by_cases hneeded : ∃ d, policy.needed name = some d ∧ d ∉ loaded s
    · obtain ⟨d, hd, hmissing⟩ := hneeded
      have hwaits := hset.waits s name bytes d hrejected hd hmissing
      rw [hanswer] at hwaits
      exact .inl ⟨⟨d, hd, hmissing⟩, hwaits⟩
    · have hall : ∀ d, policy.needed name = some d → d ∈ loaded s := fun d hd =>
        by_contra fun hmissing => hneeded ⟨d, hd, hmissing⟩
      have haccepts := hset.accepts s name bytes hrejected hall
      rw [hanswer] at haccepts
      exact .inr ⟨hall, haccepts⟩

/-- What the classes loaded by some calls have in common: none is rejected, and each can be derived
from a set that holds all classes loaded so far, as far as they cannot be derived themselves. -/
theorem SetBased.derivable_of_calls {calls : List (LoadCall σ)} {initial : Set ClassIdentity}
    (hcalls : loader.Calls s calls s') (hready : ∀ c ∈ calls, c.Ready loader h)
    (hpending : ∀ c ∈ calls, c.entry ∈ queue)
    (haccepted : ∀ c ∈ calls, ∀ message, c.answer ≠ .rejected message)
    (hnames : ∀ p ∈ queue, '/' ∉ p.identity.name.toList)
    (hs : ∀ d ∈ loaded s, d ∉ initial → Derivable h policy queue initial d) :
    ∀ p ∈ LoadCall.loadedBy calls, ¬ policy.rejected p.identity.qualifiedName ∧
      Derivable h policy queue initial p.identity := by
  induction hcalls with
  | nil s => simp
  | @cons c calls s' answered rest ih =>
    rw [List.forall_mem_cons] at hready hpending haccepted
    specialize ih hready.2 hpending.2 haccepted.2
    rcases hset.load_cases answered with ⟨-, message, hrejected⟩ | ⟨hname, hanswer⟩
    · exact absurd hrejected (haccepted.1 message)
    rcases hanswer with ⟨-, hmissing, hsame⟩ | ⟨hneeded, hloaded, hinsert⟩
    · rw [LoadCall.loadedBy_cons_of_ne (by simp [hmissing])]
      exact ih (by rwa [hsame])
    · -- Whatever the class requires is in the set when it is loaded.
      have hc : Derivable h policy queue initial c.entry.identity := by
        refine .pending hpending.1 ?_
        rintro d (⟨hclass, hsuper⟩ | hd) hnew
        · rcases hready.1 with hinterface | hnone | ⟨sup, hsup, hsupLoaded⟩
          · rw [hclass] at hinterface
            cases hinterface
          · rw [hsuper] at hnone
            cases hnone
          · obtain rfl : sup = d := Option.some.inj (hsup.symm.trans hsuper)
            exact hs sup ((hset.isLoaded_iff c.before sup).mp hsupLoaded) hnew
        · exact hs d (hneeded d hd) hnew
      have hrest := ih fun d hd hnew => by
        rw [hinsert, ClassIdentity.parse_qualifiedName (hnames _ hpending.1)] at hd
        rcases hd with rfl | hd
        · exact hc
        · exact hs d hd hnew
      rw [LoadCall.loadedBy_cons_of_loaded hloaded]
      exact List.forall_mem_cons.mpr ⟨⟨hname, hc⟩, hrest⟩

/-- The set keeps its classes, and gets those that are loaded. -/
theorem SetBased.loaded_of_calls {calls : List (LoadCall σ)} (hcalls : loader.Calls s calls s')
    (haccepted : ∀ c ∈ calls, ∀ message, c.answer ≠ .rejected message)
    (hnames : ∀ c ∈ calls, '/' ∉ c.entry.identity.name.toList) :
    loaded s ⊆ loaded s' ∧ ∀ p ∈ LoadCall.loadedBy calls, p.identity ∈ loaded s' := by
  induction hcalls with
  | nil s => simp
  | @cons c calls s' answered rest ih =>
    rw [List.forall_mem_cons] at haccepted hnames
    obtain ⟨hkept, hadded⟩ := ih haccepted.2 hnames.2
    rcases hset.load_cases answered with ⟨-, message, hrejected⟩ | ⟨-, hanswer⟩
    · exact absurd hrejected (haccepted.1 message)
    rcases hanswer with ⟨-, hmissing, hsame⟩ | ⟨-, hloaded, hinsert⟩
    · rw [LoadCall.loadedBy_cons_of_ne (by simp [hmissing])]
      exact ⟨hsame ▸ hkept, hadded⟩
    · rw [ClassIdentity.parse_qualifiedName hnames.1] at hinsert
      rw [hinsert, Set.insert_subset_iff] at hkept
      rw [LoadCall.loadedBy_cons_of_loaded hloaded]
      exact ⟨hkept.2, List.forall_mem_cons.mpr ⟨hkept.1, hadded⟩⟩

/-- A scan of a queue in which some class has all that it requires loads a class. -/
theorem SetBased.order_ne_nil {p : PendingClass} (hp : p ∈ queue)
    (hsupplied : ∀ d, Requires h policy p.identity d → d ∈ loaded s)
    (hpass : loader.pass h queue s = .ok (order, left) s') : order ≠ [] := by
  induction queue generalizing s order left with
  | nil => cases hp
  | cons q rest ih =>
    by_cases hready : h.isReady (loader.isLoaded s) q.identity = true
    · obtain ⟨answer, s₁, hload⟩ : ∃ answer s₁,
          loader.load s q.identity.qualifiedName q.bytes = (answer, s₁) := ⟨_, _, rfl⟩
      rw [loader.pass_cons_of_ready rest hready hload] at hpass
      rcases hset.load_cases hload with ⟨-, message, rfl⟩ | ⟨-, ⟨hneeds, rfl, hsame⟩ | ⟨-, rfl, -⟩⟩
      · cases hpass
      · obtain ⟨⟨order', left'⟩, s₂, hrest, heq⟩ := bind_eq_ok.mp hpass
        cases heq
        rcases List.mem_cons.mp hp with rfl | hp
        · obtain ⟨d, hd, hmissing⟩ := hneeds
          exact absurd (hsupplied d (.inr hd)) hmissing
        · exact ih hp (by rwa [hsame]) hrest
      · obtain ⟨⟨order', left'⟩, s₂, hrest, heq⟩ := bind_eq_ok.mp hpass
        cases heq
        exact List.cons_ne_nil _ _
    · rw [loader.pass_cons_of_waiting rest hready] at hpass
      obtain ⟨⟨order', left'⟩, s₂, hrest, heq⟩ := bind_eq_ok.mp hpass
      cases heq
      rcases List.mem_cons.mp hp with rfl | hp
      · exact absurd (hset.isReady hsupplied) hready
      · exact ih hp hsupplied hrest

omit hset in
/-- While classes of a queue are left and the others are loaded, one that is left has all that it
requires. -/
theorem exists_supplied {known initial : Set ClassIdentity} (hleft : left ≠ [])
    (hqueue : left ⊆ queue) (hinitial : initial ⊆ known)
    (hothers : ∀ p ∈ queue, p ∈ left ∨ p.identity ∈ known)
    (hderivable : ∀ p ∈ queue, Derivable h policy queue initial p.identity) :
    ∃ p ∈ left, ∀ d, Requires h policy p.identity d → d ∈ known := by
  by_contra hstuck
  have hknown : ∀ c, Derivable h policy queue initial c → c ∈ known := by
    intro c hc
    induction hc with
    | @pending p mem _ ih =>
      refine (hothers p mem).resolve_left fun hp => hstuck ⟨p, hp, fun d hd => ?_⟩
      by_cases hd' : d ∈ initial
      · exact hinitial hd'
      · exact ih d hd hd'
  obtain ⟨p, hp⟩ := List.exists_mem_of_ne_nil left hleft
  refine hstuck ⟨p, hp, fun d hd => ?_⟩
  by_cases hd' : d ∈ initial
  · exact hinitial hd'
  · generalize hc : p.identity = c at hd
    cases hc ▸ hderivable p (hqueue hp) with
    | pending _ required => exact hknown d (required d hd hd')

/-- A queue whose classes can all be derived, part of which is loaded, is loaded in as many scans as
there are classes left. -/
theorem SetBased.exists_passes {initial : Set ClassIdentity} (limit : Nat)
    (hnames : ∀ p ∈ queue, '/' ∉ p.identity.name.toList)
    (haccepted : ∀ p ∈ queue, ¬ policy.rejected p.identity.qualifiedName)
    (hderivable : ∀ p ∈ queue, Derivable h policy queue initial p.identity) {n : Nat}
    (hn : left.length ≤ n) (hqueue : left ⊆ queue) (hinitial : initial ⊆ loaded s)
    (hothers : ∀ p ∈ queue, p ∈ left ∨ p.identity ∈ loaded s) :
    ∃ order s', loader.passes h limit n left s = .ok order s' := by
  induction n generalizing left s with
  | zero =>
    obtain rfl : left = [] := List.length_eq_zero_iff.mp (Nat.le_zero.mp hn)
    exact ⟨[], s, rfl⟩
  | succ n ih =>
    cases left with
    | nil => exact ⟨[], s, rfl⟩
    | cons q rest =>
      obtain ⟨calls, hexplains, hyields⟩ := loader.exists_calls_pass h (q :: rest) s
      cases hpass : loader.pass h (q :: rest) s with
      | error e s₁ =>
        obtain ⟨c, hc, message, hanswer, -⟩ := hyields.of_error hpass
        have hmem : c ∈ calls := List.mem_of_mem_getLast? hc
        have hname := haccepted c.entry (hqueue (hexplains.pending c hmem))
        rcases hset.load_cases (hexplains.answered.load_eq c hmem) with
          ⟨hrejected, -⟩ | ⟨-, ⟨-, hmissing, -⟩ | ⟨-, hloaded, -⟩⟩
        · exact absurd hrejected hname
        · cases hanswer.symm.trans hmissing
        · cases hanswer.symm.trans hloaded
      | ok r s₁ =>
        obtain ⟨order, left⟩ := r
        have hd : Divides calls (q :: rest) order left := hyields.of_ok hpass
        obtain ⟨p, hp, hsupplied⟩ := exists_supplied (List.cons_ne_nil q rest) hqueue hinitial
          hothers hderivable
        have horder : order ≠ [] := hset.order_ne_nil hp hsupplied hpass
        have hshorter : left.length ≤ n := by
          have hlength := hd.perm.length_eq
          have hpositive := List.length_pos_iff.mpr horder
          rw [hd.order_eq, List.length_map] at hpositive
          rw [List.length_append] at hlength
          omega
        obtain ⟨hkept, hadded⟩ := hset.loaded_of_calls (hexplains.answered_of_ok hpass) hd.accepted
          fun c hc => hnames c.entry (hqueue (hexplains.pending c hc))
        have hothers' : ∀ p ∈ queue, p ∈ left ∨ p.identity ∈ loaded s₁ := by
          intro p hp
          rcases hothers p hp with hp | hp
          · rcases List.mem_append.mp (hd.perm.mem_iff.mpr hp) with hp | hp
            · exact .inr (hadded p hp)
            · exact .inl hp
          · exact .inr (hkept hp)
        obtain ⟨order', s', hrest⟩ := ih hshorter (List.Subset.trans hd.left_subset hqueue)
          (fun d hd => hkept (hinitial hd)) hothers'
        refine ⟨order ++ order', s', ?_⟩
        rw [passes_cons, bind_of_ok hpass, bind_of_ok hrest]
        rfl

/-- All classes of a queue are loaded exactly if none is rejected and each can be derived. -/
theorem SetBased.exists_loadAll_iff (hnames : ∀ p ∈ queue, '/' ∉ p.identity.name.toList)
    {limit : Nat} (hlimit : queue.length ≤ limit) (s : σ) :
    (∃ order s', loader.loadAll h limit queue s = .ok order s') ↔
      (∀ p ∈ queue, ¬ policy.rejected p.identity.qualifiedName) ∧
        ∀ p ∈ queue, Derivable h policy queue (loaded s) p.identity := by
  constructor
  · rintro ⟨order, s', hload⟩
    obtain ⟨calls, hexplains, hyields⟩ := loader.exists_calls_passes h limit limit queue s
    obtain ⟨hd, -⟩ := hyields.of_ok hload
    have hall := hset.derivable_of_calls (hexplains.answered_of_ok hload) hexplains.ready
      hexplains.pending hd.accepted hnames fun d hd hnew => absurd hd hnew
    have hmem : ∀ p ∈ queue, p ∈ LoadCall.loadedBy calls := fun p hp => by
      simpa using hd.perm.mem_iff.mpr hp
    exact ⟨fun p hp => (hall p (hmem p hp)).1, fun p hp => (hall p (hmem p hp)).2⟩
  · rintro ⟨haccepted, hderivable⟩
    exact hset.exists_passes limit hnames haccepted hderivable hlimit (List.Subset.refl queue)
      subset_rfl fun p hp => .inl hp

/-- **Complete class loading.** A loader with a set of loaded classes loads all classes of a queue,
given as many scans as there are classes, exactly if none of them is rejected and each can be
derived from the classes loaded at the start. So the order of the queue does not matter. -/
theorem loadAll_succeeds_iff (h : ClassHierarchy) {queue : List PendingClass}
    (hnames : ∀ p ∈ queue, '/' ∉ p.identity.name.toList) {limit : Nat}
    (hlimit : queue.length ≤ limit) (s : σ) :
    ((∃ order s', loader.loadAll h limit queue s = .ok order s') ↔
      (∀ p ∈ queue, ¬ policy.rejected p.identity.qualifiedName) ∧
        ∀ p ∈ queue, Derivable h policy queue (loaded s) p.identity) ∧
    ∀ queue', queue'.Perm queue →
      ((∃ order s', loader.loadAll h limit queue' s = .ok order s') ↔
        ∃ order s', loader.loadAll h limit queue s = .ok order s') := by
  refine ⟨hset.exists_loadAll_iff hnames hlimit s, fun queue' hperm => ?_⟩
  have hnames' : ∀ p ∈ queue', '/' ∉ p.identity.name.toList := fun p hp =>
    hnames p (hperm.subset hp)
  have hlimit' : queue'.length ≤ limit := hperm.length_eq ▸ hlimit
  rw [hset.exists_loadAll_iff hnames hlimit, hset.exists_loadAll_iff hnames' hlimit']
  constructor
  · rintro ⟨haccepted, hderivable⟩
    exact ⟨fun p hp => haccepted p (hperm.symm.subset hp),
      fun p hp => (hderivable p (hperm.symm.subset hp)).mono hperm.subset⟩
  · rintro ⟨haccepted, hderivable⟩
    exact ⟨fun p hp => haccepted p (hperm.subset hp),
      fun p hp => (hderivable p (hperm.subset hp)).mono hperm.symm.subset⟩

end

end ClassLoader

namespace Rehearsal

/-- What a rehearsal rejects and needs. -/
def policy (r : Rehearsal) : LoadPolicy where
  rejected name := (r.reject.lookup name).isSome = true
  needed name := (r.needs.lookup name).map ClassIdentity.parse

/-- The loader that plays a rehearsal has a set of loaded classes. -/
theorem setBased (r : Rehearsal) :
    r.loader.SetBased r.policy fun s => { c | c ∈ s.loaded } where
  isLoaded_iff s c := by simp [loader]
  rejects s name bytes hrejected := by
    obtain ⟨message, hmessage⟩ := Option.isSome_iff_exists.mp hrejected
    exact ⟨message, by simp [loader, hmessage]⟩
  waits s name bytes c hrejected hneeded hmissing := by
    have hnone : r.reject.lookup name = none := Option.not_isSome_iff_eq_none.mp hrejected
    obtain ⟨needed, hlookup, rfl⟩ := Option.map_eq_some_iff.mp hneeded
    have hmissing : ClassIdentity.parse needed ∉ s.loaded := hmissing
    simp [loader, hnone, hlookup, hmissing]
  accepts s name bytes hrejected hneeded := by
    have hnone : r.reject.lookup name = none := Option.not_isSome_iff_eq_none.mp hrejected
    cases hlookup : r.needs.lookup name with
    | none =>
      simp only [loader, hnone, hlookup, true_and]
      ext c
      simp
    | some needed =>
      have hpresent : ClassIdentity.parse needed ∈ s.loaded :=
        hneeded _ (by simp [policy, hlookup])
      simp only [loader, hnone, hlookup, hpresent, if_true, true_and]
      ext c
      simp

end Rehearsal

/-- A class `C3` below `C2`, which is below `C1`, which is below `B`, and an interface `I`. -/
def chainHierarchy : ClassHierarchy :=
  ((((ClassHierarchy.empty.registerEdge ⟨"simula/user", "C3"⟩ ⟨"simula/user", "C2"⟩).registerEdge
    ⟨"simula/user", "C2"⟩ ⟨"simula/user", "C1"⟩).registerEdge ⟨"simula/user", "C1"⟩
    ⟨"simula/user", "B"⟩).registerEdge ⟨"simula/user", "I"⟩ ⟨"simula/user", "J"⟩).registerInterface
    ⟨"simula/user", "I"⟩

/-- Some of these classes, each before the ones that it requires. -/
def chainQueue : List PendingClass :=
  [⟨⟨"simula/user", "C3"⟩, [], false⟩, ⟨⟨"simula/user", "C2"⟩, [], false⟩,
    ⟨⟨"simula/user", "C1"⟩, [], false⟩, ⟨⟨"simula/user", "I"⟩, [], true⟩]

/-- The class `C1` needs the interface. -/
def chainRehearsal : Rehearsal where
  needs := [("simula/user/C1", "simula/user/I")]

/-- Only the class `B` is there at the start. -/
def chainStart : RehearsalState where
  loaded := [⟨"simula/user", "B"⟩]

/-- The classes can be loaded one in each scan, so they can be loaded from the other end of the
queue, too. -/
theorem ClassLoader.loadAll_succeeds_iff_chainQueue :
    (∀ p ∈ chainQueue, Derivable chainHierarchy chainRehearsal.policy chainQueue
      { c | c ∈ chainStart.loaded } p.identity) ∧
    ∃ order s', chainRehearsal.loader.loadAll chainHierarchy 4 chainQueue.reverse chainStart =
      .ok order s' := by
  have hnames : ∀ p ∈ chainQueue, '/' ∉ p.identity.name.toList := by decide
  have hlimit : chainQueue.length ≤ 4 := by decide
  have htest : succeedsWith (chainRehearsal.loader.loadAll chainHierarchy 4 chainQueue) chainStart
      (fun order _ => order = (chainQueue.map (·.identity)).reverse) = true := by
    decide +kernel
  obtain ⟨order, s', hload, -⟩ := exists_of_succeedsWith htest
  obtain ⟨hiff, hperm⟩ :=
    loadAll_succeeds_iff chainRehearsal.setBased chainHierarchy hnames hlimit chainStart
  exact ⟨(hiff.mp ⟨order, s', hload⟩).2,
    (hperm _ (List.reverse_perm chainQueue)).mpr ⟨order, s', hload⟩⟩

end Simula
