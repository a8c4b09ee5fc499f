import Simula.Proofs.AttributeFile.Growth
import Simula.Proofs.ObjectStream.Objects

/-!
# External declarations in an attribute file

The record of an external declaration leads nowhere: its scope is detached and the module behind
it is not stored. So reading the external declarations of a file is the same as adding them one
after the other, without their scopes, and loading the module behind each. A reader that has
followed the writer so far stays in step while the modules are loaded in between.
-/

namespace Simula.AttributeFile

/-- Adds external declarations to the tree and loads the module behind each. -/
def addExternals (loadExternal : NodeId → Loading NodeId) : List Node → Loading (List NodeId)
  | [] => return []
  | node :: rest => do
    let external := (← get).tree.size
    modify fun s => { s with tree := s.tree.push node }
    let module ← loadExternal external
    modify fun s => { s with tree := s.tree.update external (withModule module) }
    return external :: (← addExternals loadExternal rest)

/-- An external declaration as it is stored: without its scope and the module behind it. -/
def storedExternal (t : Tree) (id : NodeId) : Node where
  line := min (t.line id) maxShort
  data :=
    match t.data id with
    | .declaration i _ (.external k file _) => .declaration i none (.external k file none)
    | d => d

/-- A node of that kind is an external declaration. -/
theorem exists_external {t : Tree} {id : NodeId} (h : t.kind id = .externalDeclaration) :
    ∃ i s k file m, t.data id = .declaration i s (.external k file m) := by
  rw [Tree.kind] at h
  generalize t.data id = d at h
  cases d with
  | declaration i s f =>
    cases f with
    | external k file m => exact ⟨i, s, k, file, m, rfl⟩
    | _ => cases h
  | statement f => cases f <;> cases h
  | expression f ty => cases f <;> cases h
  | _ => cases h

section

variable {t : Tree} {detached : List NodeId} {id : NodeId}
variable (hkind : t.kind id = .externalDeclaration) (hscope : ∀ s ∈ t.declaredIn? id, s ∈ detached)
include hkind hscope

/-- The copy of an external declaration does not depend on the copies of other nodes. -/
theorem copiedNode_external (copy : NodeId → NodeId) :
    t.copiedNode detached copy id = storedExternal t id := by
  obtain ⟨i, s, k, file, m, hdata⟩ := exists_external hkind
  have hlost : copiedLink detached copy s = none := by
    cases s with
    | none => rfl
    | some s => exact copiedLink_of_mem (hscope s (by rw [Tree.declaredIn?, hdata]; rfl)) copy
  rw [Tree.copiedNode, storedExternal, hdata]
  simp only [NodeData.named, NodeData.modifyBody, Declaration.modifyBody, NodeData.relabel,
    Declaration.relabel, hlost]

/-- An external declaration that is met for the first time opens its own record alone. -/
theorem openFrom_external {seen : List Opening} (hattached : id ∉ detached)
    (hnew : id ∉ seen.map (·.node)) : t.openFrom detached t.size [] seen id = [⟨id, []⟩] := by
  obtain ⟨i, s, k, file, m, hdata⟩ := exists_external hkind
  have hlt : id < t.size := Tree.lt_of_data (by rw [hdata]; nofun)
  obtain ⟨n, hn⟩ := Nat.exists_eq_succ_of_ne_zero (Nat.ne_of_gt (Nat.zero_lt_of_lt hlt))
  have hlinks : (t.data id).links = s.toList := by
    rw [hdata]
    simp [NodeData.links, NodeData.kind, Declaration.kind, Kind.layout?, Layout.external,
      Payload.links, Shape.links]
  rw [hn, Tree.openFrom_of_new n (fun h => h.elim hattached hnew), hlinks]
  cases s with
  | none => rfl
  | some s =>
    have hs : s ∈ detached := hscope s (by rw [Tree.declaredIn?, hdata]; rfl)
    rw [Option.toList_some, openAll_singleton, Tree.openFrom_of_known (.inl hs)]

end

/-- The module behind an external declaration does not change what it declares. -/
theorem identifier?_withModule (module : NodeId) (d : NodeData) :
    (withModule module d).identifier? = d.identifier? := by
  unfold withModule
  split <;> rfl

/-- An external declaration is stored with its identifier. -/
theorem identifier?_storedExternal (t : Tree) (id : NodeId) :
    (storedExternal t id).data.identifier? = t.identifier? id := by
  rw [storedExternal, Tree.identifier?]
  split <;> simp_all [NodeData.identifier?]

/-- An external declaration is stored as one. -/
theorem kind_storedExternal (t : Tree) (id : NodeId) :
    (storedExternal t id).data.kind = t.kind id := by
  rw [storedExternal, Tree.kind]
  split <;> simp_all [NodeData.kind, Declaration.kind]

/-- The copying in which the module behind an external declaration has been recorded. -/
def linked {t : Tree} {detached : List NodeId} (k : Copying t detached) (external module : NodeId) :
    Copying t detached where
  copy := k.copy
  finished id :=
    if id = external then ⟨(k.finished id).line, withModule module (k.finished id).data⟩
    else k.finished id
  identifier?_finished id := by
    split
    · exact (identifier?_withModule _ _).trans (k.identifier?_finished id)
    · exact k.identifier?_finished id

/-- What makes external declarations readable after the records in `seen`: none is detached or
has been written before, and each announces a class or a procedure. -/
structure Separate (t : Tree) (detached : List NodeId) (seen : List Opening)
    (externals : List NodeId) : Prop where
  attached : ∀ e ∈ externals, e ∉ detached
  unseen : ∀ e ∈ externals, e ∉ seen.map (·.node)
  nodup : externals.Nodup
  readable : ∀ e ∈ externals, Opening.Readable t detached ⟨e, []⟩

/-- External declarations are readable if the first is and the others are after it. -/
theorem separate_cons {t : Tree} {detached : List NodeId} {seen : List Opening} {e : NodeId}
    {externals : List NodeId} :
    Separate t detached seen (e :: externals) ↔
      (e ∉ detached ∧ e ∉ seen.map (·.node)) ∧ Opening.Readable t detached ⟨e, []⟩ ∧
        Separate t detached (seen ++ [⟨e, []⟩]) externals := by
  constructor
  · rintro ⟨hattached, hunseen, hnodup, hreadable⟩
    obtain ⟨hnot, hnodup⟩ := List.nodup_cons.mp hnodup
    rw [List.forall_mem_cons] at hattached hunseen hreadable
    refine ⟨⟨hattached.1, hunseen.1⟩, hreadable.1, hattached.2, fun e' he' => ?_, hnodup,
      hreadable.2⟩
    rw [List.map_append, List.mem_append]
    rintro (h | h)
    · exact hunseen.2 e' he' h
    · obtain rfl : e' = e := List.mem_singleton.mp h
      exact hnot he'
  · rintro ⟨⟨hattached, hunseen⟩, hreadable, hrest⟩
    have hbehind := hrest.unseen
    simp only [List.map_append, List.mem_append, not_or] at hbehind
    refine ⟨List.forall_mem_cons.mpr ⟨hattached, hrest.attached⟩,
      List.forall_mem_cons.mpr ⟨hunseen, fun e' he' => (hbehind e' he').1⟩,
      List.nodup_cons.mpr ⟨fun he => (hbehind e he).2 (List.mem_singleton_self e), hrest.nodup⟩,
      List.forall_mem_cons.mpr ⟨hreadable, hrest.readable⟩⟩

section

variable {t : Tree} {detached : List NodeId} {k : Copying t detached} {seen : List Opening}
variable {w w' : WriterState}

/-- Recording the module behind an external declaration, after its module has been loaded, keeps
in step. -/
theorem aligned_linked {r : ReaderState} {tree : Tree} (h : r.Aligned k [] seen w.numbers)
    (hw : w.Numbered seen) (hextends : r.tree.Extends tree) {o : Opening} (ho : o ∈ seen)
    (module : NodeId) :
    (⟨r.input, tree.update (k.copy o.node) (withModule module), r.objects⟩ : ReaderState).Aligned
      (linked k o.node module) [] seen w.numbers := by
  have hsize : r.tree.size ≤ (tree.update (k.copy o.node) (withModule module)).size := by
    rw [Tree.size_update]
    exact hextends.size_le
  refine h.transfer hw (fun _ _ => rfl) rfl hextends.caseRule hsize fun o' ho' => ?_
  have hnode : tree.nodes[k.copy o'.node]? = some (k.finished o'.node) :=
    (hextends.old _ (h.bound o' ho')).trans (h.complete o' ho' nofun)
  by_cases heq : o'.node = o.node
  · rw [← heq, Tree.nodes_update, if_pos rfl, hnode]
    exact congrArg some (if_pos rfl).symm
  · have hne : k.copy o'.node ≠ k.copy o.node :=
      fun hcopy => heq (congrArg Opening.node (h.copy_injective ho' ho hcopy))
    rw [Tree.nodes_update_of_ne _ hne, hnode]
    exact congrArg some (if_neg heq).symm

variable {loadExternal : NodeId → Loading NodeId}

/-- A tag of another kind ends the external declarations. -/
theorem readExternals_stop {s : FileState} {kind : Kind} {rest : Bytes} (n : Nat)
    (hinput : s.input = UInt8.ofNat kind.tag :: rest) (hkind : kind ≠ .externalDeclaration) :
    readExternals loadExternal (n + 1) s = .ok ([], kind) { s with input := rest } := by
  rw [readExternals, bind_of_ok (take_of_reads (Decoder.kind_reads kind) hinput), if_pos hkind]
  rfl

/-- Goes on with an external declaration that has been read: loads the module behind it and
takes the external declarations that follow. -/
def goOnWith (loadExternal : NodeId → Loading NodeId) (n : Nat) (external : NodeId) :
    FileReader (List NodeId × Kind) := do
  linkExternal external (← meanwhile (loadExternal external))
  let (externals, kind) ← readExternals loadExternal n
  return (external :: externals, kind)

/-- The record of an external declaration becomes a node without scope and module, behind which
the module is loaded next; it is refused unless it announces a class or a procedure. -/
theorem readExternals_record (loadExternal : NodeId → Loading NodeId) {e : NodeId}
    (hw : w.Numbered seen) (hkind : t.kind e = .externalDeclaration)
    (hscope : ∀ s ∈ t.declaredIn? e, s ∈ detached)
    (hattached : e ∉ detached) (hnew : e ∉ seen.map (·.node))
    (hwrite : Writer.object t detached (some e) w = .ok () w') :
    ∃ bs : Bytes, 0 < bs.length ∧ w'.out = w.out ++ bs ∧
      ∀ {k : Copying t detached} {s : FileState} {rest : Bytes} (n : Nat),
        s.objectStream.Aligned k [] seen w.numbers → s.input = bs ++ rest →
        (Opening.Readable t detached ⟨e, []⟩ → ∃ objects,
          readExternals loadExternal (n + 1) s = goOnWith loadExternal n s.loading.tree.size
            ⟨rest, objects, { s.loading with
              tree := s.loading.tree.push (storedExternal t e) }⟩ ∧
          (⟨rest, s.loading.tree.push (storedExternal t e), objects⟩ : ReaderState).Aligned
            (k.goOn [e] s.loading.tree.size) [] (seen ++ [⟨e, []⟩]) w'.numbers) ∧
        (¬ Opening.Readable t detached ⟨e, []⟩ →
          ∃ err s', readExternals loadExternal (n + 1) s = .error err s') := by
  obtain ⟨bs, htag⟩ := object_starts_with_tag hw hwrite
  rw [Tree.tagKind_of_new hattached hnew, hkind] at htag
  refine ⟨UInt8.ofNat Kind.externalDeclaration.tag :: bs, Nat.succ_pos _, htag,
    fun {k s rest} n hs hinput => ?_⟩
  have hplaced : (k.goOn [e] s.loading.tree.size).Placed [⟨e, []⟩] s.loading.tree.size :=
    @Copying.goOn_placed _ _ k [⟨e, []⟩] (List.nodup_singleton e) _
  have hother : ∀ o ∈ seen, o.node ∉ [e] := by
    rintro o ho hmem
    exact hnew (List.mem_map.mpr ⟨o, ho, List.mem_singleton.mp hmem⟩)
  obtain ⟨-, bs', hout, hread⟩ := @wholeObject_transcribes t detached
    (k.goOn [e] s.loading.tree.size) (bs.length + 1) seen (some e) _ _ hw hwrite
  obtain rfl : _ :: bs = bs' := Output.append_cancel (htag.symm.trans hout)
  rw [Option.toList_some, openAll_singleton, openFrom_external hkind hscope hattached hnew,
    List.forall_mem_singleton, copiedLink_of_notMem hattached] at hread
  obtain ⟨hok, herr⟩ := hread (hs.goOn hw hother _) hinput (Nat.le_refl _) hplaced
  -- The tag has been taken by the time the record is.
  have htag : Reader.object s.objectStream = Reader.tagged .externalDeclaration
      { s.objectStream with input := bs ++ rest } := Reader.object_eq_tagged hinput
  rw [htag] at hok herr
  rw [readExternals, bind_of_ok (take_of_reads (Decoder.kind_reads _) hinput), if_neg (by simp)]
  refine ⟨fun hreadable => ?_, fun hreadable => ?_⟩
  · obtain ⟨⟨input, tree, objects⟩, htagged, hrest, hsize, hr⟩ := hok hreadable
    obtain rfl : input = rest := hrest
    have hcopy : (k.goOn [e] s.loading.tree.size).copy e = s.loading.tree.size := hplaced.cons.1
    have htree : tree = s.loading.tree.push (storedExternal t e) := by
      refine ((Reader.tagged_grows _).of_ok htagged).1.toExtends.eq_push hsize ?_
      have hnode := hr.complete ⟨e, []⟩ (List.mem_append_right _ (List.mem_singleton_self _)) nofun
      rw [hcopy, hplaced.cons.2.1, copiedNode_external hkind hscope] at hnode
      exact hnode
    subst htree
    rw [hcopy] at htagged
    exact ⟨objects, bind_of_ok (stream_of_ok (s := { s with input := bs ++ input }) htagged), hr⟩
  · obtain ⟨err, r, htagged⟩ := herr hreadable
    exact ⟨err, _, bind_of_error (stream_of_error (s := { s with input := bs ++ rest }) htagged)⟩

/-- The module behind an external declaration is recorded before the next one is taken. -/
theorem goOnWith_of_ok {s : FileState} {external module : NodeId} {ls : LoadState} (n : Nat)
    (h : loadExternal external s.loading = .ok module ls) :
    goOnWith loadExternal n external s =
      (do
        let (externals, kind) ← readExternals loadExternal n
        return (external :: externals, kind) : FileReader (List NodeId × Kind))
      { s with loading := { ls with tree := ls.tree.update external (withModule module) } } := by
  rw [goOnWith, bind_of_ok (meanwhile_of_ok h)]
  rfl

/-- A module that cannot be loaded ends the reading of the file. -/
theorem goOnWith_of_error {s : FileState} {external : NodeId} {e : Error} {ls : LoadState} (n : Nat)
    (h : loadExternal external s.loading = .error e ls) :
    goOnWith loadExternal n external s = .error e { s with loading := ls } :=
  bind_of_error (meanwhile_of_error h)

/-- Adding external declarations starts with the first of them. -/
theorem addExternals_cons_of_ok {node : Node} {rest : List Node} {s ls : LoadState}
    {module : NodeId}
    (h : loadExternal s.tree.size { s with tree := s.tree.push node } = .ok module ls) :
    addExternals loadExternal (node :: rest) s =
      (do return s.tree.size :: (← addExternals loadExternal rest) : Loading (List NodeId))
      { ls with tree := ls.tree.update s.tree.size (withModule module) } := by
  rw [addExternals, bind_of_ok (get_apply s), bind_of_ok (modify_apply _ _), bind_of_ok h]
  rfl

/-- Adding external declarations fails if the module behind the first cannot be loaded. -/
theorem addExternals_cons_of_error {node : Node} {rest : List Node} {s ls : LoadState} {e : Error}
    (h : loadExternal s.tree.size { s with tree := s.tree.push node } = .error e ls) :
    addExternals loadExternal (node :: rest) s = .error e ls := by
  rw [addExternals, bind_of_ok (get_apply s), bind_of_ok (modify_apply _ _)]
  exact bind_of_error h

/-- Adding one external declaration loads the module behind it and records it there. -/
theorem addExternals_singleton_eq_ok {node : Node} {s s' : LoadState} {ids : List NodeId} :
    addExternals loadExternal [node] s = .ok ids s' ↔ ids = [s.tree.size] ∧ ∃ module ls,
      loadExternal s.tree.size { s with tree := s.tree.push node } = .ok module ls ∧
      s' = { ls with tree := ls.tree.update s.tree.size (withModule module) } := by
  constructor
  · intro h
    cases hload : loadExternal s.tree.size { s with tree := s.tree.push node } with
    | error e ls =>
      rw [addExternals_cons_of_error hload] at h
      cases h
    | ok module ls =>
      rw [addExternals_cons_of_ok hload] at h
      cases h
      exact ⟨rfl, module, ls, rfl, rfl⟩
  · rintro ⟨rfl, module, ls, hload, rfl⟩
    exact addExternals_cons_of_ok hload

/-- External declarations that have been added look in the tree as they did before, but for the
module behind them, and so do the nodes before them. -/
theorem view_addExternals {β : Type} {view : NodeData → β}
    (hview : ∀ module d, view (withModule module d) = view d)
    (hload : ∀ id, Follows LoadState.Extends (loadExternal id))
    {nodes : List Node} {s s' : LoadState} {ids : List NodeId}
    (h : addExternals loadExternal nodes s = .ok ids s') :
    s.tree.Keeps view s'.tree ∧
      ids.map (fun id => view (s'.tree.data id)) = nodes.map fun node => view node.data := by
  induction nodes generalizing s ids with
  | nil =>
    obtain ⟨rfl, rfl⟩ := pure_eq_ok.mp h
    exact ⟨.refl s.tree, rfl⟩
  | cons node rest ih =>
    cases hfirst : loadExternal s.tree.size { s with tree := s.tree.push node } with
    | error e ls =>
      rw [addExternals_cons_of_error hfirst] at h
      cases h
    | ok module ls =>
      rw [addExternals_cons_of_ok hfirst] at h
      obtain ⟨ids, s₁, hrest, h⟩ := bind_eq_ok.mp h
      obtain ⟨rfl, rfl⟩ := pure_eq_ok.mp h
      obtain ⟨hkeeps, hids⟩ := ih hrest
      have hgrown : (s.tree.push node).Extends ls.tree := (hload _).of_ok hfirst
      have hadded : (s.tree.push node).Keeps view s₁.tree :=
        (hgrown.keeps.trans (.update ls.tree s.tree.size (hview module))).trans hkeeps
      refine ⟨(Tree.Keeps.push s.tree node).trans hadded, ?_⟩
      have hnew := hadded.same s.tree.size (by simp)
      rw [Tree.data_push, if_pos rfl] at hnew
      rw [List.map_cons, List.map_cons, hids, hnew]

/-- Only external declarations are written as such. -/
theorem kinds_of_writeExternals {t : Tree} {left externals : List NodeId} {w w' : WriterState}
    (h : writeExternals t left externals w = .ok () w') :
    ∀ e ∈ externals, t.kind e = .externalDeclaration := by
  induction externals generalizing w with
  | nil => exact nofun
  | cons e rest ih =>
    rw [writeExternals] at h
    by_cases hkind : t.kind e = .externalDeclaration
    · rw [if_neg (not_not_intro hkind)] at h
      obtain ⟨_, w₁, -, h⟩ := bind_eq_ok.mp h
      exact List.forall_mem_cons.mpr ⟨hkind, ih h⟩
    · rw [if_pos hkind] at h
      cases h

/-- A file reader follows the writer, from one state to another, through the bytes of external
declarations: it reads them as if they were added one after the other, up to a tag of another
kind. Only behind external declarations that can be read, and whose modules can be loaded, does it
meet the tag of a module. -/
def FollowsExternals (loadExternal : NodeId → Loading NodeId) (t : Tree) (detached : List NodeId)
    (seen : List Opening) (externals : List NodeId) (w w' : WriterState) (bs : Bytes) : Prop :=
  ∀ ⦃k : Copying t detached⦄ ⦃s : FileState⦄ ⦃rest : Bytes⦄ ⦃kind : Kind⦄ ⦃n : Nat⦄,
    s.objectStream.Aligned k [] seen w.numbers → s.input = bs ++ UInt8.ofNat kind.tag :: rest →
    kind ≠ .externalDeclaration → externals.length < n →
    (Separate t detached seen externals → ∀ ⦃ids : List NodeId⦄ ⦃ls : LoadState⦄,
      addExternals loadExternal (externals.map (storedExternal t)) s.loading = .ok ids ls →
      ∃ (k' : Copying t detached) (objects : List (Int × NodeId)),
        readExternals loadExternal n s = .ok (ids, kind) ⟨rest, objects, ls⟩ ∧
        (⟨rest, ls.tree, objects⟩ : ReaderState).Aligned k' []
          (seen ++ externals.map (⟨·, []⟩)) w'.numbers ∧
        (∀ o ∈ seen, k'.copy o.node = k.copy o.node) ∧ externals.map k'.copy = ids) ∧
    (∀ ⦃ids : List NodeId⦄ ⦃kind' : Kind⦄ ⦃s' : FileState⦄,
      readExternals loadExternal n s = .ok (ids, kind') s' → kind'.isModule = true →
      Separate t detached seen externals ∧ ∃ ids ls,
        addExternals loadExternal (externals.map (storedExternal t)) s.loading = .ok ids ls)

/-- Without external declarations the next tag is met at once. -/
theorem followsExternals_nil : FollowsExternals loadExternal t detached seen [] w w [] := by
  intro k s rest kind n hs hinput hkind hn
  obtain ⟨n, rfl⟩ := Nat.exists_eq_succ_of_ne_zero (Nat.ne_of_gt hn)
  refine ⟨fun _ ids ls hadd => ?_,
    fun _ _ _ _ _ => ⟨⟨nofun, nofun, .nil, nofun⟩, [], s.loading, rfl⟩⟩
  obtain ⟨rfl, rfl⟩ := pure_eq_ok.mp hadd
  refine ⟨k, s.objects, readExternals_stop n hinput hkind, ?_, fun _ _ => rfl, rfl⟩
  rw [List.map_nil, List.append_nil]
  exact hs.setInput rest

/-- A node that is detached or has been written before has no record, and its tag is not that of a
module. -/
theorem followsExternals_cons_of_known {e : NodeId} {externals : List NodeId} {bs : Bytes}
    (hold : ¬ (e ∉ detached ∧ e ∉ seen.map (·.node))) :
    FollowsExternals loadExternal t detached seen (e :: externals) w w'
      (UInt8.ofNat (t.tagKind detached seen e).tag :: bs) := by
  have hstop : t.tagKind detached seen e ≠ .externalDeclaration ∧
      (t.tagKind detached seen e).isModule = false := by
    rcases t.tagKind_cases detached seen e with h | h | ⟨hattached, hnew, -⟩
    · rw [h]
      decide
    · rw [h]
      decide
    · exact absurd ⟨hattached, hnew⟩ hold
  intro k s rest kind n hs hinput _ hn
  obtain ⟨n, rfl⟩ := Nat.exists_eq_succ_of_ne_zero (Nat.ne_of_gt (Nat.zero_lt_of_lt hn))
  refine ⟨fun hsep => absurd (separate_cons.mp hsep).1 hold, fun ids kind' s' hext hmodule => ?_⟩
  rw [readExternals_stop n hinput hstop.1] at hext
  cases hext
  rw [hstop.2] at hmodule
  cases hmodule

/-- After the record of an external declaration the module behind it is loaded, and then the
others follow. -/
theorem followsExternals_cons_of_new (hload : ∀ id, Follows LoadState.Extends (loadExternal id))
    {e : NodeId} {externals : List NodeId} {w₁ : WriterState} {bs : Bytes} (hw : w.Numbered seen)
    (hw₁ : w₁.Numbered (seen ++ [⟨e, []⟩])) (hkind : t.kind e = .externalDeclaration)
    (hscope : ∀ s ∈ t.declaredIn? e, s ∈ detached)
    (hnew : e ∉ detached ∧ e ∉ seen.map (·.node))
    (hwrite : Writer.object t detached (some e) w = .ok () w₁)
    (hrest : FollowsExternals loadExternal t detached (seen ++ [⟨e, []⟩]) externals w₁ w' bs) :
    ∃ bs₁ : Bytes, 0 < bs₁.length ∧ w₁.out = w.out ++ bs₁ ∧
      FollowsExternals loadExternal t detached seen (e :: externals) w w' (bs₁ ++ bs) := by
  obtain ⟨bs₁, hpos, hout₁, hrecord⟩ :=
    readExternals_record loadExternal hw hkind hscope hnew.1 hnew.2 hwrite
  refine ⟨bs₁, hpos, hout₁, fun k s rest kind n hs hinput hend hn => ?_⟩
  obtain ⟨n, rfl⟩ := Nat.exists_eq_succ_of_ne_zero (Nat.ne_of_gt (Nat.zero_lt_of_lt hn))
  rw [List.append_assoc] at hinput
  obtain ⟨hok, herr⟩ := hrecord n hs hinput
  rw [separate_cons, List.map_cons]
  by_cases hreadable : Opening.Readable t detached ⟨e, []⟩
  case neg =>
    obtain ⟨err, s', hext⟩ := herr hreadable
    rw [hext]
    refine ⟨fun hsep => absurd hsep.2.1 hreadable, fun _ _ _ hext => ?_⟩
    cases hext
  obtain ⟨objects, hgo, hr⟩ := hok hreadable
  rw [hgo]
  cases hl : loadExternal s.loading.tree.size
      { s.loading with tree := s.loading.tree.push (storedExternal t e) } with
  | error err ls₁ =>
    rw [addExternals_cons_of_error hl, goOnWith_of_error n hl]
    refine ⟨fun _ _ _ hadd => ?_, fun _ _ _ hext => ?_⟩
    · cases hadd
    · cases hext
  | ok module ls₁ =>
    have hcopy : (k.goOn [e] s.loading.tree.size).copy e = s.loading.tree.size := by
      simp [Copying.goOn, copyFrom]
    have hmem : ⟨e, []⟩ ∈ seen ++ [⟨e, []⟩] := List.mem_append_right _ (List.mem_singleton_self _)
    have hlinked := aligned_linked hr hw₁ ((hload _).of_ok hl) hmem module
    rw [hcopy] at hlinked
    obtain ⟨hnext, hback⟩ := hrest (s := ⟨bs ++ UInt8.ofNat kind.tag :: rest, objects,
      { ls₁ with tree := ls₁.tree.update s.loading.tree.size (withModule module) }⟩)
      hlinked rfl hend (Nat.lt_of_succ_lt_succ hn)
    rw [addExternals_cons_of_ok hl, goOnWith_of_ok n hl]
    refine ⟨fun hsep ids ls hadd => ?_, fun ids kind' s' hext hmodule => ?_⟩
    · obtain ⟨ids', ls', hadd', hpure⟩ := bind_eq_ok.mp hadd
      obtain ⟨rfl, rfl⟩ := pure_eq_ok.mp hpure
      obtain ⟨k', objects', hext, hr', hagree, hids⟩ := hnext hsep.2.2 hadd'
      have hother : ∀ o ∈ seen, k'.copy o.node = k.copy o.node := fun o ho =>
        (hagree o (List.mem_append_left _ ho)).trans
          (if_neg fun hmem => hnew.2 (List.mem_map.mpr ⟨o, ho, List.mem_singleton.mp hmem⟩))
      refine ⟨k', objects', bind_of_ok hext, ?_, hother, ?_⟩
      · rw [List.map_cons, List.append_cons]
        exact hr'
      · rw [List.map_cons, hids, hagree ⟨e, []⟩ hmem]
        exact congrArg (· :: ids') hcopy
    · obtain ⟨⟨ids', kind''⟩, s'', hext', hpure⟩ := bind_eq_ok.mp hext
      obtain ⟨heq, rfl⟩ := pure_eq_ok.mp hpure
      obtain ⟨-, rfl⟩ := Prod.mk.inj heq
      obtain ⟨hsep, ids'', ls'', hadd⟩ := hback hext' hmodule
      exact ⟨⟨hnew, hreadable, hsep⟩, _, _, bind_of_ok hadd⟩

/-- The external declarations of a file are read as if they were added one after the other. -/
theorem readExternals_written (hload : ∀ id, Follows LoadState.Extends (loadExternal id))
    {externals : List NodeId} (hw : w.Numbered seen)
    (hscope : ∀ e ∈ externals, ∀ s ∈ t.declaredIn? e, s ∈ detached)
    (hwrite : writeExternals t detached externals w = .ok () w') :
    w'.Numbered (seen ++ openAll (t.openFrom detached t.size []) seen externals) ∧
    ∃ bs : Bytes, w'.out = w.out ++ bs ∧ externals.length ≤ bs.length ∧
      FollowsExternals loadExternal t detached seen externals w w' bs := by
  induction externals generalizing seen w with
  | nil =>
    obtain ⟨-, rfl⟩ := pure_eq_ok.mp hwrite
    rw [openAll, List.append_nil]
    exact ⟨hw, [], by simp, Nat.le_refl _, followsExternals_nil⟩
  | cons e externals ih =>
    rw [List.forall_mem_cons] at hscope
    have hkind := kinds_of_writeExternals hwrite e List.mem_cons_self
    rw [writeExternals, if_neg (not_not_intro hkind)] at hwrite
    obtain ⟨_, w₁, hobject, hwrite⟩ := bind_eq_ok.mp hwrite
    obtain ⟨hw₁, -⟩ := @wholeObject_transcribes t detached (.plain t detached fun i => i) 0 seen
      (some e) _ _ hw hobject
    rw [Option.toList_some, openAll_singleton] at hw₁
    obtain ⟨hw', bs, hout, hlen, hread⟩ := ih hw₁ hscope.2 hwrite
    refine ⟨?_, ?_⟩
    · rw [openAll, ← List.append_assoc]
      exact hw'
    by_cases hnew : e ∉ detached ∧ e ∉ seen.map (·.node)
    · rw [openFrom_external hkind hscope.1 hnew.1 hnew.2] at hw₁ hread
      obtain ⟨bs₁, hpos, hout₁, hread₁⟩ :=
        followsExternals_cons_of_new hload hw hw₁ hkind hscope.1 hnew hobject hread
      refine ⟨bs₁ ++ bs, by rw [hout, hout₁, Output.append_append], ?_, hread₁⟩
      rw [List.length_append, List.length_cons]
      omega
    · obtain ⟨bs₁, htag⟩ := object_starts_with_tag hw hobject
      refine ⟨_ :: (bs₁ ++ bs), by rw [hout, htag, Output.append_append]; rfl, ?_,
        followsExternals_cons_of_known hnew⟩
      rw [List.length_cons, List.length_cons, List.length_append]
      omega

end

end Simula.AttributeFile
