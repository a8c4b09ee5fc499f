import Simula.Proofs.AttributeFile.Parts
import Simula.Proofs.Check.Termination
import Simula.Proofs.ObjectStream.Containment
import Simula.Proofs.Session.Enclosing

/-!
# Checking a module that has been loaded

A file may hold nodes that contain themselves: a reference in a record leads to any record that has
been begun. A module without external declarations refers only to nodes of its own file, so that a
check of it stays among these. It ends if none of them is below itself, and if one is, it does not
succeed.
-/

namespace Simula

/-- The nodes that the nesting of a node names are among those that its content names. -/
theorem NodeData.nodes_nesting_subset (d : NodeData) : d.nesting.nodes ⊆ d.references := by
  have hbody : ∀ b : Body, b.nesting.nodes ⊆ b.references := by
    intro b
    refine List.append_subset.mpr ⟨?_, List.subset_append_right _ _⟩
    exact fun id hid => List.mem_append_left _ (List.mem_append_left _ hid)
  rcases d with _ | ⟨i, scope, form⟩ | b | form | ⟨form, ty⟩
  case declaration =>
    refine List.Subset.trans ?_ (List.subset_append_right scope.toList form.references)
    cases form with
    | classDeclaration c => exact List.Subset.trans (hbody c.body) (List.subset_append_right _ _)
    | procedure ty ps b => exact List.Subset.trans (hbody b) (List.subset_append_right _ _)
    | block b => exact hbody b
    | simpleVariable ty constant => exact List.Subset.refl _
    | _ => exact List.nil_subset _
  case connection => exact List.subset_append_right _ _
  all_goals exact List.Subset.refl _

namespace AttributeFile

/-- A module that has been read without external declarations: it is the first of the new nodes,
and these refer only to each other. -/
theorem closed_of_read {loadExternal : NodeId → Loading NodeId} {bytes : Bytes}
    {l l' : LoadState} {m : LoadedModule} (h : read loadExternal bytes l = .ok m l')
    (hexternals : m.externals = []) :
    m.module = l.tree.size ∧ (l'.tree.kind m.module).isModule = true ∧ l.tree.size < l'.tree.size ∧
      ∀ i, l.tree.size ≤ i → ∀ n ∈ (l'.tree.data i).references,
        l.tree.size ≤ n ∧ n < l'.tree.size := by
  obtain ⟨s₁, s₂, hheader, hmodules, rfl⟩ := read_eq_ok h
  obtain ⟨kind, s₃, r, hread, hkind, hmodule, htagged, rfl⟩ := readModules_eq_ok hmodules
  rw [hexternals] at hread
  have hsame := readHeader_sameNodes.of_ok hheader
  obtain ⟨n, k, s₄, hn, htake, hcase⟩ := readExternals_eq_ok hread
  have hsame' := (take_sameNodes _).of_ok htake
  rcases hcase with ⟨-, -, rfl, rfl⟩ | ⟨-, _, _, _, _, -, -, -, hcons⟩
  case inr => cases hcons
  have htree : s₃.loading.tree = l.tree := hsame'.tree.trans hsame.tree
  have hobjects : s₃.objects = [] := hsame'.objects.trans hsame.objects
  have hstart : s₃.objectStream.Closed l.tree.size := by
    refine ⟨Nat.le_of_eq (by rw [FileState.objectStream, htree]), ?_, fun i hi => ?_⟩
    · rw [FileState.objectStream, hobjects]
      exact List.forall_mem_nil _
    · rw [FileState.objectStream, htree, Tree.data_of_size_le hi]
      exact List.forall_mem_nil _
  obtain ⟨hclosed, hheld⟩ := (Reader.tagged_closes kind).closed hstart htagged
  have hheld' := hheld m.module (List.mem_singleton_self _)
  exact ⟨hmodule.trans (by rw [htree]), isModule_of_read h,
    Nat.lt_of_le_of_lt hheld'.1 hheld'.2, hclosed.links⟩

end AttributeFile

/-- A node of a module kind has an identifier. -/
theorem Tree.exists_identifier {t : Tree} {id : NodeId} (h : (t.kind id).isModule = true) :
    ∃ i, t.identifier? id = some i := by
  rw [kind] at h
  rw [identifier?]
  generalize t.data id = d at h
  rcases d with _ | ⟨i, scope, form⟩ | b | form | ⟨form, ty⟩
  case declaration => exact ⟨i, rfl⟩
  case statement => cases form <;> cases h
  case expression => cases form <;> cases h
  all_goals cases h

namespace Session

open CheckM

/-- **Checking a module that has been loaded.** A module that has been read from any bytes and has
no external declarations can be enclosed in a block. If nothing below the block leads back to
itself, the check of the block ends at the limit that its tree sets, and has the same outcome at
every greater depth. If something does, the check does not succeed at any depth. -/
theorem check_loaded {loadExternal : NodeId → Loading NodeId} {bytes : Bytes} {l l' : LoadState}
    {m : LoadedModule} (hread : AttributeFile.read loadExternal bytes l = .ok m l')
    (hexternals : m.externals = []) (session : Session) :
    ∃ t, enclose m ⟨session, l'.tree⟩ = .ok l'.tree.size ⟨session, t⟩ ∧
      ∀ diagnostics,
        (t.WellNested (.scope l'.tree.size) → ∀ depth, nestingLimit t.size ≤ depth →
          ¬ RunsOut (checkWithin depth l'.tree.size) ⟨t, diagnostics⟩ ∧
          checkWithin depth l'.tree.size ⟨t, diagnostics⟩ =
            CheckM.check l'.tree.size ⟨t, diagnostics⟩) ∧
        ∀ depth s, checkWithin depth l'.tree.size ⟨t, diagnostics⟩ = .ok () s →
          t.WellNested (.scope l'.tree.size) := by
  obtain ⟨hmodule, hkind, hlt, hclosed⟩ := AttributeFile.closed_of_read hread hexternals
  obtain ⟨i, hi⟩ := Tree.exists_identifier hkind
  obtain ⟨module, externals⟩ := m
  obtain rfl : externals = [] := hexternals
  obtain rfl : module = l.tree.size := hmodule
  obtain ⟨t, henclose, he⟩ := exists_enclose (c := ⟨session, l'.tree⟩) (m := ⟨l.tree.size, []⟩)
    ⟨by simp, by simp [hi], List.pairwise_singleton _ _⟩
  have hsize : t.size = l'.tree.size + 1 := he.size
  have hnesting : ∀ id < l'.tree.size, t.nesting id = l'.tree.nesting id := by
    intro id hid
    by_cases hne : id = l.tree.size
    · rw [hne, Tree.nesting, he.declared _ List.mem_cons_self, NodeData.nesting_withDeclaredIn,
        NodeData.nesting_withIdentifier]
      rfl
    · rw [Tree.nesting, he.other id hid (by simpa using hne)]
      rfl
  -- The check stays among the nodes of the file and the block.
  have hregion : t.Region fun id => l.tree.size ≤ id ∧ id < t.size := by
    refine ⟨fun hid => hid.2, fun {id} hid n hn => ?_⟩
    rcases Nat.lt_or_ge id l'.tree.size with hid' | hid'
    · rw [hnesting id hid'] at hn
      obtain ⟨hn₁, hn₂⟩ := hclosed id hid.1 n (NodeData.nodes_nesting_subset _ hn)
      exact ⟨hn₁, by rw [hsize]; exact Nat.lt_succ_of_lt hn₂⟩
    · obtain rfl : id = l'.tree.size :=
        Nat.le_antisymm (Nat.le_of_lt_succ (Nat.lt_of_lt_of_eq hid.2 hsize)) hid'
      rw [Tree.nesting, he.block] at hn
      obtain rfl := List.mem_singleton.mp hn
      exact ⟨Nat.le_refl _, by rw [hsize]; exact Nat.lt_succ_of_lt hlt⟩
  have hroot : l.tree.size ≤ l'.tree.size ∧ l'.tree.size < t.size :=
    ⟨Nat.le_of_lt hlt, by rw [hsize]; exact Nat.lt_succ_self _⟩
  refine ⟨t, henclose, fun diagnostics => ⟨fun hwell depth hdepth => ?_, fun depth s h => ?_⟩⟩
  · have hends : ¬ RunsOut (CheckM.check l'.tree.size) ⟨t, diagnostics⟩ :=
      not_runsOut_of_wellNested (s := ⟨t, diagnostics⟩) hregion hroot hwell
    have hagrees := (checkWithin_agrees hdepth l'.tree.size ⟨t, diagnostics⟩).resolve_left hends
    refine ⟨?_, hagrees⟩
    rintro ⟨id, s, hrun⟩
    exact hends ⟨id, s, hagrees.symm.trans hrun⟩
  · exact wellNested_of_checkWithin (s := ⟨t, diagnostics⟩) hregion hroot h

/-- The file of a class `A` whose one statement is a compound statement that contains itself. -/
def circularFile : Bytes :=
  AttributeFile.plainHeader ++
  [3, 31, 65, 0, 1, 0, 2, 0, 65, 0, 0, 0, 0, 0, 0, 0, 0, 0, 0, 0, 0, 0, 0, 0, 0, 0, 0, 1, 19, 31,
    66, 0, 2, 0, 1, 1, 31, 66]

/-- A scope that declares just one other scope, whose one statement is a compound statement that
contains itself. -/
structure Circle (t : Tree) (block c statement : NodeId) : Prop where
  block : (t.nesting block).declared = [c]
  scope : t.nesting c = .scope [] [statement]
  statement : t.nesting statement = .statement (.compound #[statement])

/-- The check of such a scope never comes to an end. -/
theorem Circle.runsOut {s : CheckState} {block c statement : NodeId}
    (h : Circle s.tree block c statement) (depth : Nat) : RunsOut (checkScope depth block) s := by
  have hstatement : ∀ depth, RunsOut (checkStatement depth c statement) s := by
    intro depth
    induction depth with
    | zero => exact ⟨statement, s, rfl⟩
    | succ depth ih =>
      rw [checkStatement]
      refine .after_tree ?_
      rw [Tree.data_of_nesting_statement h.statement]
      exact ih.bind _
  have hscope : ∀ depth, RunsOut (checkScope depth c) s := by
    intro depth
    cases depth with
    | zero => exact ⟨c, s, rfl⟩
    | succ depth =>
      rw [checkScope]
      refine .after_tree ?_
      dsimp only
      rw [← NodeData.declared_nesting, ← NodeData.statements_nesting, ← Tree.nesting, h.scope]
      obtain ⟨id, s', hrun⟩ := ((hstatement depth).bind fun _ =>
        forEach (checkStatement depth c) []).bind fun _ => finishLabels c
      exact ⟨id, s', hrun⟩
  cases depth with
  | zero => exact ⟨block, s, rfl⟩
  | succ depth =>
    rw [checkScope]
    refine .after_tree ?_
    dsimp only
    rw [← NodeData.declared_nesting, ← Tree.nesting, h.block]
    refine RunsOut.bind (RunsOut.bind (.after_tree ?_) _) _
    rcases Tree.kind_of_nesting_scope h.scope with hkind | hkind | hkind <;> rw [hkind] <;>
      exact hscope depth

/-- It leads back to itself. -/
theorem Circle.not_wellNested {t : Tree} {block c statement : NodeId}
    (h : Circle t block c statement) : ¬ t.WellNested (.scope block) := by
  have hscope : t.Calls (.scope block) (.scope c) := by
    simp [Tree.Calls, Tree.calls, h.block, h.scope, Nesting.callsDeclared]
  have hstatement : t.Calls (.scope c) (.statement statement) := by
    simp [Tree.Calls, Tree.calls, h.scope, Nesting.statements]
  have hcircle : t.Calls (.statement statement) (.statement statement) := by
    simp [Tree.Calls, Tree.calls, h.statement, Tree.callsOf]
  exact fun hwell => hwell _ (.tail (.single hscope) hstatement) (.single hcircle)

/-- A file that can be read, and whose module can be enclosed, but which no check of the module ever
comes to the end of. -/
theorem check_loaded_circularFile : ∃ m l t,
    AttributeFile.read (fun _ => throw (.internal .nullModule)) circularFile { tree := {} } =
      .ok m l ∧ m.externals = [] ∧
    enclose m ⟨{}, l.tree⟩ = .ok l.tree.size ⟨{}, t⟩ ∧
    ¬ t.WellNested (.scope l.tree.size) ∧
    (∀ depth s, checkWithin depth l.tree.size ⟨t, {}⟩ ≠ .ok () s) ∧
    ∀ depth, RunsOut (checkWithin depth l.tree.size) ⟨t, {}⟩ := by
  have hfile : succeedsWith
      (AttributeFile.read (fun _ => throw (.internal .nullModule)) circularFile) { tree := {} }
      (fun m l => m.externals = [] ∧ l.tree.size = 2 ∧ succeedsWith (enclose m) ⟨{}, l.tree⟩
        (fun _ c => (c.tree.nesting 2).declared = [0] ∧ c.tree.nesting 0 = .scope [] [1] ∧
          c.tree.nesting 1 = .statement (.compound #[1]))) = true := by
    decide +kernel
  obtain ⟨m, l, hread, htest⟩ := exists_of_succeedsWith hfile
  obtain ⟨hexternals, hsize, henclosed⟩ := of_decide_eq_true htest
  obtain ⟨t, henclose, hchecks⟩ := check_loaded hread hexternals {}
  obtain ⟨_, c, henclose', htest'⟩ := exists_of_succeedsWith henclosed
  cases henclose.symm.trans henclose'
  obtain ⟨hblock, hscope, hstatement⟩ := of_decide_eq_true htest'
  have hcircle : Circle t l.tree.size 0 1 := ⟨hsize ▸ hblock, hscope, hstatement⟩
  have hprepared : Circle (CheckState.prepareClasses ⟨t, {}⟩ l.tree.size).tree l.tree.size 0 1 := by
    obtain ⟨hblock, hscope, hstatement⟩ := hcircle
    constructor <;> rwa [CheckState.nesting_prepareClasses]
  refine ⟨m, l, t, hread, hexternals, henclose, hcircle.not_wellNested, ?_, ?_⟩
  · exact fun depth s hrun => hcircle.not_wellNested ((hchecks {}).2 depth s hrun)
  · exact fun depth => hprepared.runsOut depth

end Session

end Simula
