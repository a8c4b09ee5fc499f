import Simula.Proofs.AttributeFile.Parts
import Simula.Proofs.ObjectStream.Independence

/-!
# The files that a file names

While a file is read, the loader is called once for each record of an external declaration, in the
order of the records. The list of these calls says everything that reading a file asks of other
files, and what a predicate needs to be carried through a file is needed only between two calls.

The files that the records name are settled by the bytes: whatever the loader has added to the tree
in the meantime, a file that can be read names the files that it names in an empty tree.
-/

namespace Simula

/-- The state with the module behind an external declaration recorded. -/
def LoadState.link (s : LoadState) (external module : NodeId) : LoadState :=
  { s with tree := s.tree.update external (AttributeFile.withModule module) }

namespace AttributeFile

/-- A call of the loader: the external declaration, and the state from which its module is
loaded. -/
structure LoaderCall where
  external : NodeId
  state : LoadState

/-- The file that is asked for. -/
def LoaderCall.file? (c : LoaderCall) : Option String := (c.state.tree.data c.external).file?

section

variable (load : NodeId → Loading NodeId)

/-- The calls that taking at most `n` external declarations makes. -/
def externalCalls : Nat → FileState → List LoaderCall
  | 0, _ => []
  | n + 1, s =>
    match take Decoder.kind s with
    | .ok .externalDeclaration s =>
      match stream (Reader.tagged .externalDeclaration) s with
      | .ok (some external) s =>
        ⟨external, s.loading⟩ ::
          match (meanwhile (load external) >>= linkExternal external) s with
          | .ok _ s => externalCalls n s
          | .error _ _ => []
      | _ => []
    | _ => []

/-- The calls that reading a file makes. -/
def calls (bytes : Bytes) (s : LoadState) : List LoaderCall :=
  match readHeader { input := bytes, loading := s } with
  | .ok _ s => externalCalls load s.input.length s
  | .error _ _ => []

end

/-! ## Carrying a predicate through a file -/

/-- The call is for a record that has just been read. -/
structure LoaderCall.Begins (c : LoaderCall) (s : LoadState) : Prop where
  tree : s.tree.Extends c.state.tree
  loaded : c.state.loaded = s.loaded
  external : c.external = s.tree.size
  unlinked : ∃ i scope k file,
    c.state.tree.data c.external = .declaration i scope (.external k file none)

/-- What holds of the calls made so far and the state goes on to hold while a file is read: `P`
between two calls, and `E` after a failure. -/
structure Carried (load : NodeId → Loading NodeId)
    (P E : List LoaderCall → LoadState → Prop) : Prop where
  grow : ∀ {cs s s'}, P cs s → s.tree.Extends s'.tree → s'.loaded = s.loaded → P cs s'
  fail : ∀ {cs s}, P cs s → E cs s
  call_ok : ∀ {cs s c module s'}, P cs s → c.Begins s →
    load c.external c.state = .ok module s' → P (cs ++ [c]) (s'.link c.external module)
  call_error : ∀ {cs s c e s'}, P cs s → c.Begins s →
    load c.external c.state = .error e s' → E (cs ++ [c]) s'

section

variable {load : NodeId → Loading NodeId} {n : Nat} {s s₁ : FileState}

/-- Without a further tag no call is made. -/
theorem externalCalls_of_error {e : Error} (h : take Decoder.kind s = .error e s₁) :
    externalCalls load (n + 1) s = [] := by
  rw [externalCalls, h]

/-- At the tag of another record no call is made. -/
theorem externalCalls_of_ne {k : Kind} (h : take Decoder.kind s = .ok k s₁)
    (hk : k ≠ .externalDeclaration) : externalCalls load (n + 1) s = [] := by
  rw [externalCalls, h]
  cases k <;> first | rfl | contradiction

section

variable (h : take Decoder.kind s = .ok .externalDeclaration s₁)
include h

/-- A record that cannot be read leads to no call. -/
theorem externalCalls_of_tagged_error {e : Error} {r : ReaderState}
    (hr : Reader.tagged .externalDeclaration s₁.objectStream = .error e r) :
    externalCalls load (n + 1) s = [] := by
  simp only [externalCalls, h, stream_of_error hr]

variable {r : ReaderState} {external : NodeId}
variable (hr : Reader.tagged .externalDeclaration s₁.objectStream = .ok (some external) r)
include hr

/-- A call that fails is the last. -/
theorem externalCalls_of_call_error {e : Error} {ls : LoadState}
    (hload : load external (s₁.withStream r).loading = .error e ls) :
    externalCalls load (n + 1) s = [⟨external, (s₁.withStream r).loading⟩] := by
  simp only [externalCalls, h, stream_of_ok hr, bind_of_error (meanwhile_of_error hload)]

/-- After a call that succeeds the others follow. -/
theorem externalCalls_of_call_ok {module : NodeId} {ls : LoadState}
    (hload : load external (s₁.withStream r).loading = .ok module ls) :
    externalCalls load (n + 1) s = ⟨external, (s₁.withStream r).loading⟩ ::
      externalCalls load n { s₁.withStream r with loading := ls.link external module } := by
  simp only [externalCalls, h, stream_of_ok hr, bind_of_ok (meanwhile_of_ok hload)]
  rfl

end

variable {P E : List LoaderCall → LoadState → Prop} {cs : List LoaderCall}

/-- What is carried through a file is carried through its external declarations. -/
theorem Carried.readExternals (h : Carried load P E) (n : Nat) (hs : P cs s.loading) :
    Ends (readExternals load n) s
      (fun a s' => P (cs ++ externalCalls load n s) s'.loading ∧
        a.1 = (externalCalls load n s).map (·.external))
      (fun s' => E (cs ++ externalCalls load n s) s'.loading) := by
  induction n generalizing cs s with
  | zero =>
    rw [externalCalls, List.append_nil]
    exact .of_error rfl (h.fail hs)
  | succ n ih =>
    have hgrow : P cs (leaves (take Decoder.kind) s).loading := by
      have hsame := take_sameNodes Decoder.kind s
      exact h.grow hs (hsame.tree ▸ .refl _) hsame.loaded
    cases hk : take Decoder.kind s with
    | error e s₁ =>
      rw [leaves_of_error hk] at hgrow
      rw [externalCalls_of_error hk, List.append_nil]
      exact .of_error (bind_of_error hk) (h.fail hgrow)
    | ok k s₁ =>
      rw [leaves_of_ok hk] at hgrow
      refine .after hk ?_
      by_cases hkind : k = .externalDeclaration
      case neg =>
        rw [if_pos hkind, externalCalls_of_ne hk hkind, List.append_nil]
        exact ⟨hgrow, rfl⟩
      subst hkind
      rw [if_neg (not_not_intro rfl)]
      cases hr : Reader.tagged .externalDeclaration s₁.objectStream with
      | error e r =>
        rw [externalCalls_of_tagged_error hk hr, List.append_nil]
        exact .of_error (bind_of_error (stream_of_error hr))
          (h.fail (h.grow hgrow ((Reader.tagged_grows _).of_error hr).toExtends rfl))
      | ok l r =>
        obtain rfl := tagged_eq_size (by decide) (by decide) hr
        have hbegins : LoaderCall.Begins ⟨s₁.loading.tree.size, (s₁.withStream r).loading⟩
            s₁.loading :=
          ⟨((Reader.tagged_grows _).of_ok hr).1.toExtends, rfl, rfl, exists_unlinked_of_tagged hr⟩
        refine .after (stream_of_ok hr) ?_
        cases hload : load s₁.loading.tree.size (s₁.withStream r).loading with
        | error e ls =>
          rw [externalCalls_of_call_error hk hr hload]
          exact .of_error (bind_of_error (meanwhile_of_error hload))
            (h.call_error hgrow hbegins hload)
        | ok module ls =>
          have hrest := ih (h.call_ok hgrow hbegins hload)
            (s := { s₁.withStream r with loading := ls.link s₁.loading.tree.size module })
          rw [List.append_assoc] at hrest
          rw [externalCalls_of_call_ok hk hr hload]
          refine .after (meanwhile_of_ok hload) (.after (modify_apply _ _) ?_)
          exact hrest.bind fun a s' _ ha => ⟨ha.1, congrArg (_ :: ·) ha.2⟩

/-- What is carried through a file holds when the file has been read. -/
theorem Carried.read (h : Carried load P E) (bytes : Bytes) {l : LoadState} (hl : P [] l) :
    Ends (read load bytes) l
      (fun m l' => P (calls load bytes l) l' ∧ m.externals = (calls load bytes l).map (·.external))
      (fun l' => E (calls load bytes l) l') := by
  have hall : Ends (readAll load) { input := bytes, loading := l }
      (fun m s' => P (calls load bytes l) s'.loading ∧
        m.externals = (calls load bytes l).map (·.external))
      (fun s' => E (calls load bytes l) s'.loading) := by
    have hgrow : P [] (leaves readHeader { input := bytes, loading := l }).loading := by
      have hsame := readHeader_sameNodes { input := bytes, loading := l }
      exact h.grow hl (hsame.tree ▸ .refl _) hsame.loaded
    rw [readAll_eq]
    cases hheader : readHeader { input := bytes, loading := l } with
    | error e s₁ =>
      rw [leaves_of_error hheader] at hgrow
      simp only [calls, hheader]
      exact .of_error (bind_of_error hheader) (h.fail hgrow)
    | ok _ s₁ =>
      rw [leaves_of_ok hheader] at hgrow
      simp only [calls, hheader]
      refine .after hheader (.after (get_apply s₁) ?_)
      refine (h.readExternals s₁.input.length hgrow).bind fun a s₂ _ ha => ?_
      rw [List.nil_append] at ha ⊢
      obtain ⟨externals, kind⟩ := a
      dsimp only
      split
      · exact .of_error rfl (h.fail ha.1)
      · cases hr : Reader.tagged kind s₂.objectStream with
        | error e r =>
          exact .of_error (bind_of_error (stream_of_error hr))
            (h.fail (h.grow ha.1 ((Reader.tagged_grows _).of_error hr).toExtends rfl))
        | ok module r =>
          have hmodule : P (externalCalls load s₁.input.length s₁) (s₂.withStream r).loading :=
            h.grow ha.1 ((Reader.tagged_grows _).of_ok hr).1.toExtends rfl
          refine .after (stream_of_ok hr) ?_
          cases module with
          | none => exact .of_error rfl (h.fail hmodule)
          | some module => exact ⟨hmodule, ha.2⟩
  rw [Ends, AttributeFile.read]
  cases hread : readAll load { input := bytes, loading := l } with
  | error e s' => exact hall.error hread
  | ok m s' => exact hall.ok hread

end

/-! ## The named files -/

/-- A loader that loads nothing. -/
def loadNothing (external : NodeId) : Loading NodeId := pure external

/-- The files that the external declarations of a file name, as far as they can be read: read into
an empty tree, with nothing loaded behind them. -/
def named (rule : CaseRule) (bytes : Bytes) : List String :=
  (calls loadNothing bytes { tree := { caseRule := rule } }).filterMap LoaderCall.file?

/-- The module behind an external declaration does not show in its face. -/
theorem face_withModule (module : NodeId) (d : NodeData) : (withModule module d).face = d.face := by
  unfold withModule
  split <;> rfl

section

variable {load : NodeId → Loading NodeId} (hload : ∀ id, Follows LoadState.Extends (load id))
include hload

/-- The external declarations of a file that has been read are external declarations. -/
theorem kind_externals {bytes : Bytes} {l l' : LoadState} {m : LoadedModule}
    (h : read load bytes l = .ok m l') :
    ∀ x ∈ m.externals, l'.tree.kind x = .externalDeclaration := by
  have hkeep : ∀ {t t' : Tree} {x : NodeId}, t.Extends t' → t.kind x = .externalDeclaration →
      t'.kind x = .externalDeclaration := by
    intro t t' x ht hx
    rw [Tree.kind, ht.data_eq (Tree.lt_of_kind (by rw [hx]; decide))]
    exact hx
  have hcarried : Carried load (fun cs s => ∀ c ∈ cs, s.tree.kind c.external = .externalDeclaration)
      (fun _ _ => True) := by
    refine ⟨fun h ht _ c hc => hkeep ht (h c hc), fun _ => trivial, ?_, fun _ _ _ => trivial⟩
    intro cs s c module s' h hc hok c' hc'
    have hlink : s'.tree.Keeps NodeData.kind (s'.link c.external module).tree :=
      .update _ _ (kind_withModule module)
    have hstep : c.state.tree.Extends s'.tree := (hload c.external).of_ok hok
    have hkind : s'.tree.kind c'.external = .externalDeclaration := by
      rcases List.mem_append.mp hc' with hold | hnew
      · exact hkeep (hc.tree.trans hstep) (h c' hold)
      · obtain rfl := List.mem_singleton.mp hnew
        obtain ⟨i, scope, k, file, hdata⟩ := hc.unlinked
        exact hkeep hstep (by rw [Tree.kind, hdata]; rfl)
    exact (hlink.same _ (Tree.lt_of_kind (by rw [hkind]; decide))).trans hkind
  obtain ⟨hkinds, hexternals⟩ := (hcarried.read bytes (l := l) (List.forall_mem_nil _)).ok h
  rw [hexternals]
  exact List.forall_mem_map.mpr hkinds

/-- External declarations that have been taken name the same files wherever their records are
read. -/
theorem map_file?_externalCalls {n : Nat} {s s' q : FileState} {a : List NodeId × Kind}
    (h : readExternals load n s = .ok a s') (hq : s.objectStream.Alike q.objectStream) :
    (externalCalls load n s).map LoaderCall.file? =
      (externalCalls loadNothing n q).map LoaderCall.file? := by
  induction n generalizing s q a with
  | zero => cases h
  | succ n ih =>
    obtain ⟨_, k, s₁, hn, hk, hcase⟩ := readExternals_eq_ok h
    cases hn
    obtain ⟨r₁, hr₁, rfl⟩ := stream_eq_ok.mp hk
    obtain ⟨q₁, hq₁, h₁⟩ := Reader.take_determined _ hq hr₁
    have hk' : take Decoder.kind q = .ok k (q.withStream q₁) := stream_of_ok hq₁
    rcases hcase with ⟨hne, -⟩ | ⟨rfl, r, module, ls, rest, hr, hls, hrest, -⟩
    · rw [externalCalls_of_ne hk hne, externalCalls_of_ne hk' hne]
    · obtain ⟨l, q₂, hq₂, h₂, hsame⟩ := Reader.tagged_determined h₁ hr
      obtain rfl := tagged_eq_size (by decide) (by decide) hq₂
      have hnothing : loadNothing q₁.tree.size ((q.withStream q₁).withStream q₂).loading =
          .ok q₁.tree.size _ := rfl
      rw [externalCalls_of_call_ok hk hr hls, externalCalls_of_call_ok hk' hq₂ hnothing,
        List.map_cons, List.map_cons]
      have hfile := congrArg Prod.snd (List.cons.inj hsame.faces).1
      have hgrown : r.tree.Extends ls.tree := (hload _).of_ok hls
      have halike := h₂.setTrees
        (hgrown.keeps.trans (.update _ r₁.tree.size (face_withModule module)))
        (.update q₂.tree q₁.tree.size (face_withModule q₁.tree.size)) hgrown.caseRule rfl
      exact congrArg₂ List.cons hfile (ih hrest halike)

/-- A file that has been read has called for the files that it names, in their order. -/
theorem filterMap_file?_calls {bytes : Bytes} {l l' : LoadState} {m : LoadedModule}
    (h : read load bytes l = .ok m l') :
    (calls load bytes l).filterMap LoaderCall.file? = named l.tree.caseRule bytes := by
  obtain ⟨s₁, s₂, hheader, hmodules, -⟩ := read_eq_ok h
  obtain ⟨kind, s₃, r, hexternals, -⟩ := readModules_eq_ok hmodules
  obtain ⟨q, hq, hinput⟩ := readHeader_fromInput _ _ _ hheader
    { input := bytes, loading := { tree := { caseRule := l.tree.caseRule } } } rfl
  have hs₁ := readHeader_sameNodes.of_ok hheader
  have hq₁ := readHeader_sameNodes.of_ok hq
  have halike : s₁.objectStream.Alike q.objectStream := by
    have hempty : ∀ s : FileState, s.objects = [] → s.objectStream.Registers := by
      intro s hs
      refine ⟨?_, ?_⟩ <;> simp [FileState.objectStream, hs]
    refine ⟨hinput, ?_, ?_, hempty _ hs₁.objects, hempty _ hq₁.objects⟩
    · simp only [FileState.objectStream, hs₁.tree, hq₁.tree]
    · simp only [ReaderState.faces, FileState.objectStream, hs₁.objects, hq₁.objects, List.map_nil]
  have hfiles := map_file?_externalCalls hload hexternals halike
  rw [named]
  simp only [calls, hheader, hq, hinput]
  have hjoin := congrArg (List.filterMap id) hfiles
  rwa [List.filterMap_map, List.filterMap_map] at hjoin

end

end AttributeFile

end Simula
