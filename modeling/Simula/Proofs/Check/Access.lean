import Simula.Proofs.Check.Regrowth

/-!
# Access to the attributes of an object

An attribute of an object is reached in two ways: by a remote access, or by its plain identifier in
a connection block for the object. Both find the same declaration and give it the same type. But
only the remote access is refused where the attribute is protected and the access stands outside
all subclasses of the class that declares it; inside the connection block every attribute that a
remote access finds is visible.
-/

namespace Simula

/-! ## What typing leaves alone -/

namespace NodeData

/-- The node, unless it is an expression. -/
def unlessExpression : NodeData → NodeData
  | expression _ _ => pending
  | d => d

/-- The node without what typing may change: its type, or the value that it assigns. -/
def untyped (d : NodeData) : NodeData := CheckM.withAssigned 0 (d.withExpressionType .undefined)

/-- A new type is a change that typing may make. -/
theorem untyped_withExpressionType (ty : Ty) (d : NodeData) :
    (d.withExpressionType ty).untyped = d.untyped :=
  view_withExpressionType d fun _ _ => rfl

/-- A new value is a change that typing may make. -/
theorem untyped_withAssigned (value : NodeId) (d : NodeData) :
    (CheckM.withAssigned value d).untyped = d.untyped :=
  view_withAssigned d fun _ _ _ _ => rfl

/-- A new type concerns expressions only. -/
theorem unlessExpression_withExpressionType (ty : Ty) (d : NodeData) :
    (d.withExpressionType ty).unlessExpression = d.unlessExpression :=
  view_withExpressionType d fun _ _ => rfl

/-- A new value concerns expressions only. -/
theorem unlessExpression_withAssigned (value : NodeId) (d : NodeData) :
    (CheckM.withAssigned value d).unlessExpression = d.unlessExpression :=
  view_withAssigned d fun _ _ _ _ => rfl

end NodeData

/-- The later tree differs in expressions only, and in those that were there only in what typing
may change. -/
structure Tree.Retyped (t t' : Tree) : Prop where
  others : ∀ id, (t'.data id).unlessExpression = (t.data id).unlessExpression
  kept : t.Keeps NodeData.untyped t'

/-- The tree of the later state is the earlier one with types recorded. -/
def CheckState.Retyped (s s' : CheckState) : Prop := s.tree.Retyped s'.tree

/-- A tree is retyped by leaving it alone. -/
theorem Tree.Retyped.refl (t : Tree) : t.Retyped t := ⟨fun _ => rfl, .refl t⟩

instance : Std.Refl CheckState.Retyped := ⟨fun s => .refl s.tree⟩

instance : Trans CheckState.Retyped CheckState.Retyped CheckState.Retyped :=
  ⟨fun h h' => ⟨fun id => (h'.others id).trans (h.others id), h.kept.trans h'.kept⟩⟩

/-- Typing retypes the tree. -/
theorem typingFrame_retyped : TypingFrame CheckState.Retyped where
  report s _ := .refl s.tree
  expressionType s id ty :=
    ⟨s.tree.view_update id (NodeData.unlessExpression_withExpressionType ty),
      .update s.tree id (NodeData.untyped_withExpressionType ty)⟩
  conversion s assignment rhs kind target line := by
    refine ⟨fun id => ?_, (Tree.Keeps.push s.tree _).trans
      (.update _ _ (NodeData.untyped_withAssigned _))⟩
    dsimp only
    rw [Tree.view_update _ _ (NodeData.unlessExpression_withAssigned _), Tree.data_push]
    split
    · next hid => rw [hid, Tree.data_of_size_le (Nat.le_refl _)]; rfl
    · rfl

namespace Tree.Retyped

variable {t t' : Tree} (h : t.Retyped t')
include h

/-- A connection block stays as it is. -/
theorem connection {id : NodeId} {block : Connection} (hid : t.data id = .connection block) :
    t'.data id = .connection block := by
  have hsame := h.others id
  rw [hid] at hsame
  revert hsame
  rcases t'.data id with _ | _ | _ | _ | _
  case connection => exact fun hsame => hsame
  all_goals exact nofun

/-- Links of specifications stay as they are. -/
theorem protectedBy? (id : NodeId) : t'.protectedBy? id = t.protectedBy? id := by
  have hview : ∀ d : NodeData, d.unlessExpression.protectedBy? = d.protectedBy? := fun d => by
    cases d <;> rfl
  calc t'.protectedBy? id = (t'.data id).unlessExpression.protectedBy? := (hview _).symm
    _ = (t.data id).unlessExpression.protectedBy? := by rw [h.others]
    _ = t.protectedBy? id := hview _

/-- An expression stays one, with the same but for what typing may change. -/
theorem expression {id : NodeId} {form : Expression} {ty : Ty}
    (hid : t.data id = .expression form ty) :
    ∃ form' ty', t'.data id = .expression form' ty' ∧
      (NodeData.expression form' ty').untyped = (NodeData.expression form ty).untyped := by
  have hsame := h.kept.same id (lt_of_data (by simp [hid]))
  rw [hid] at hsame
  revert hsame
  rcases t'.data id with _ | _ | _ | _ | ⟨form', ty'⟩
  case expression => exact fun hsame => ⟨form', ty', rfl, hsame⟩
  all_goals cases form <;> exact nofun

/-- The use of an identifier stays what it is, but for its type. -/
theorem nameUse {id : NodeId} {x : String} {arguments : List NodeId} {ty : Ty}
    (hid : t.data id = .expression (.nameUse x arguments) ty) :
    ∃ ty', t'.data id = .expression (.nameUse x arguments) ty' := by
  obtain ⟨form', ty', hdata, hsame⟩ := h.expression hid
  cases form' with
  | nameUse y arguments' =>
    cases hsame
    exact ⟨ty', hdata⟩
  | _ => cases hsame

end Tree.Retyped

/-! ## Steps at one node -/

namespace CheckM

variable {s : CheckState} {scope c : NodeId} {n x : String} {a : Attribute} {line : Nat}

/-- An identifier that denotes something has the type of its declaration, and nothing is
reported. -/
theorem nameType_of_resolve {d : NodeId} (h : (s.tree.resolve scope x).declaration = some d) :
    nameType x scope line s = .ok (s.tree.data d).declaredType s := by
  simp only [nameType, bind_of_ok (show tree s = .ok s.tree s from rfl), h]
  rfl

/-- A remote access is refused if the attribute is protected and the scope lies outside all
subclasses of its class. -/
def accessRefused (t : Tree) (scope c : NodeId) (a : Attribute) (x : String) : Bool :=
  t.isProtected c a.declarer x && !insideSubclass t scope a.declarer

/-- A remote access to an attribute that is found has the type of its declaration. A refusal is
reported, but changes nothing else. -/
theorem remoteType_of_findAttribute (hclass : s.tree.lookupClass scope n = some c)
    (hattr : s.tree.findAttribute c x true = some a) :
    remoteType (.ref (some n)) x scope line s =
      .ok (s.tree.data (s.tree.effective a.declaration)).declaredType
        (if accessRefused s.tree scope c a x then s.report line (.protectedAccess x) else s) := by
  simp only [remoteType, bind_of_ok (show tree s = .ok s.tree s from rfl), hclass,
    Tree.resolveRemote, hattr]
  rw [accessRefused]
  split <;> rfl

end CheckM

/-! ## The two ways -/

namespace Tree

/-- Recording a type changes no link of a class. -/
theorem sameClasses_withExpressionType (t : Tree) (id : NodeId) (ty : Ty) :
    t.SameClasses (t.update id fun d => d.withExpressionType ty) := by
  refine .update t id (fun d => ?_) (fun d => ?_) (fun d => ?_) (fun _ d => ?_)
  · exact congrArg Prod.fst (undisturbed_seen.expressionType ty d)
  all_goals cases d <;> rfl

/-- Connecting a class changes no link of a class, if the connection block is not taken for a
specification. -/
theorem sameClasses_withConnectedClass {t : Tree} {id : NodeId} (c : Option NodeId) (scope : NodeId)
    (hid : t.identifier? id = none) (hlink : ∀ h, t.protectedBy? h ≠ some id) :
    t.SameClasses (t.update id (CheckM.withConnectedClass c scope)) := by
  refine .update t id (fun d => ?_) (fun d => ?_) (fun d => ?_) fun hspec => ?_
  · exact congrArg Prod.fst (undisturbed_seen.connectedClass c scope d)
  · cases d <;> rfl
  · cases d <;> rfl
  · rcases hspec with hspec | ⟨h, hspec⟩
    · simp [hid] at hspec
    · exact absurd hspec (hlink h)

/-- In a connection block an identifier denotes the attribute of the connected class. -/
theorem resolve_of_connection {t : Tree} {branch c : NodeId} {block : Connection} {x : String}
    {a : Attribute} (hbranch : t.data branch = .connection block)
    (hconnected : block.classDeclaration = some c) (hattr : t.findAttribute c x true = some a) :
    (t.resolve branch x).declaration = some (t.effective a.declaration) := by
  have hlookup : t.lookupScope branch x = some (a, true) := by
    simp [lookupScope, hbranch, hconnected, hattr]
  exact resolve_of_lookupScope hlookup

/-- A remote access to an attribute of an object, and an inspect statement for the object with the
plain identifier of the attribute as its only branch. -/
structure AccessForms (t : Tree) (object : NodeId) (x : String)
    (access statement branch use : NodeId) : Prop where
  remote : ∃ ty, t.data access = .expression (.remote object x []) ty
  inspect : t.data statement = .statement (.inspect object [branch] none)
  connects : ∃ block, t.data branch = .connection block ∧ block.whenClass = none ∧
    block.statement = some use
  names : ∃ ty, t.data use = .expression (.nameUse x []) ty
  /-- No hidden specification takes the connection block for its protected one. -/
  unlinked : ∀ hidden, t.protectedBy? hidden ≠ some branch

end Tree

namespace CheckM

variable {s s₁ : CheckState} {depth : Nat} {scope object c : NodeId} {n x : String} {a : Attribute}
  {access statement branch use : NodeId}

/-- The remote access, once the class of the object and its attribute are found. -/
theorem typeExpr_remote {ty : Ty}
    (hform : s.tree.data access = .expression (.remote object x []) ty)
    (hobject : typeExpr depth scope object s = .ok (.ref (some n)) s₁)
    (hclass : s₁.tree.lookupClass scope n = some c)
    (hattr : s₁.tree.findAttribute c x true = some a) :
    typeExpr (depth + 1) scope access s =
      .ok (s₁.tree.data (s₁.tree.effective a.declaration)).declaredType
        ((if accessRefused s₁.tree scope c a x then
            s₁.report (s.tree.line access) (.protectedAccess x) else s₁).update access
          fun d => d.withExpressionType
            (s₁.tree.data (s₁.tree.effective a.declaration)).declaredType) := by
  have hremote := @remoteType_of_findAttribute s₁ scope c n x a (s.tree.line access) hclass hattr
  have htyped : formType (typeExpr depth scope) scope access (s.tree.line access) ty
      (.remote object x []) s = remoteType (.ref (some n)) x scope (s.tree.line access) s₁ := by
    rw [formType, bind_of_ok hobject]
    exact bind_of_ok (show typeAll (typeExpr depth scope) [] s₁ = .ok () s₁ from rfl)
  rw [typeExpr, bind_of_ok (show tree s = .ok s.tree s from rfl), hform]
  dsimp only
  rw [bind_of_ok (htyped.trans hremote)]
  rfl

/-- The plain identifier in a connection block whose class is known. -/
theorem typeExpr_connected {block : Connection} {ty : Ty}
    (hbranch : s.tree.data branch = .connection block)
    (hconnected : block.classDeclaration = some c)
    (huse : s.tree.data use = .expression (.nameUse x []) ty)
    (hattr : s.tree.findAttribute c x true = some a) :
    typeExpr (depth + 1) branch use s =
      .ok (s.tree.data (s.tree.effective a.declaration)).declaredType
        (s.update use fun d => d.withExpressionType
          (s.tree.data (s.tree.effective a.declaration)).declaredType) := by
  have hname := @nameType_of_resolve s branch x (s.tree.line use) _
    (Tree.resolve_of_connection hbranch hconnected hattr)
  have hform : formType (typeExpr depth branch) branch use (s.tree.line use) ty (.nameUse x []) s =
      .ok (s.tree.data (s.tree.effective a.declaration)).declaredType s :=
    (bind_of_ok (show typeAll (typeExpr depth branch) [] s = .ok () s from rfl)).trans hname
  rw [typeExpr, bind_of_ok (show tree s = .ok s.tree s from rfl), huse]
  dsimp only
  rw [bind_of_ok hform]
  rfl

/-- An inspect statement with one branch connects the class of the object and then checks the
branch. -/
theorem checkStatement_inspect {block : Connection} {form : Expression} {stored ty : Ty}
    {s₂ : CheckState} (hform : s.tree.data statement = .statement (.inspect object [branch] none))
    (hobject : typeExpr (depth + 2) scope object s = .ok (.ref (some n)) s₁)
    (hclass : s₁.tree.lookupClass scope n = some c)
    (hbranch : s₁.tree.data branch = .connection block) (hwhen : block.whenClass = none)
    (hstatement : block.statement = some use)
    (huse : (s₁.update branch (withConnectedClass (some c) scope)).tree.data use =
      .expression form stored)
    (htyped : typeExpr (depth + 1) branch use
      (s₁.update branch (withConnectedClass (some c) scope)) = .ok ty s₂) :
    checkStatement (depth + 3) scope statement s = .ok () s₂ := by
  have hbody : checkStatement (depth + 2) branch use
      (s₁.update branch (withConnectedClass (some c) scope)) = .ok () s₂ := by
    rw [checkStatement, bind_of_ok (show tree _ = .ok _ _ from rfl), huse]
    exact bind_of_ok htyped
  have hclass' : connectedClass none (.ref (some n)) scope (s₁.tree.line branch) s₁ =
      .ok (some c) s₁ := by
    rw [connectedClass, bind_of_ok (show tree s₁ = .ok s₁.tree s₁ from rfl)]
    simp only [hclass, pure_apply]
  have hconnection : checkConnection (checkStatement (depth + 2)) (.ref (some n)) scope branch s₁ =
      .ok () s₂ := by
    rw [checkConnection, bind_of_ok (show tree s₁ = .ok s₁.tree s₁ from rfl), hbranch]
    dsimp only
    rw [hwhen, bind_of_ok hclass', hstatement]
    exact hbody
  have hconnections : forEach (checkConnection (checkStatement (depth + 2)) (.ref (some n)) scope)
      [branch] s₁ = .ok () s₂ :=
    bind_of_ok hconnection
  rw [checkStatement, bind_of_ok (show tree s = .ok s.tree s from rfl), hform]
  dsimp only
  rw [bind_of_ok hobject, bind_of_ok hconnections]
  rfl

section

variable (hclass : s₁.tree.lookupClass scope n = some c)
  (hattr : s₁.tree.findAttribute c x true = some a)
include hclass hattr

/-- What the remote access leaves behind. -/
theorem exists_remote {ty : Ty} (hform : s.tree.data access = .expression (.remote object x []) ty)
    (hobject : typeExpr depth scope object s = .ok (.ref (some n)) s₁)
    (hretyped : s.tree.Retyped s₁.tree) :
    ∃ remote, typeExpr (depth + 1) scope access s =
        .ok (s₁.tree.data (s₁.tree.effective a.declaration)).declaredType remote ∧
      (remote.tree.resolveRemote scope c x).declaration =
        some (s₁.tree.effective a.declaration) ∧
      (remote.tree.data access).expressionType? =
        some (s₁.tree.data (s₁.tree.effective a.declaration)).declaredType ∧
      remote.diagnostics = if accessRefused s₁.tree scope c a x then
        s₁.diagnostics.report ((Finding.protectedAccess x).onLine (s.tree.line access))
        else s₁.diagnostics := by
  refine ⟨_, typeExpr_remote hform hobject hclass hattr, ?_⟩
  obtain ⟨_, _, haccess, -⟩ := hretyped.expression hform
  have hlt : access < s₁.tree.size := Tree.lt_of_data (by simp [haccess])
  have hsame := s₁.tree.sameClasses_withExpressionType access
    (s₁.tree.data (s₁.tree.effective a.declaration)).declaredType
  have hattr' := (hsame.findAttribute_eq c x true).trans hattr
  -- A report does not touch the tree.
  have htree : (if accessRefused s₁.tree scope c a x then
      s₁.report (s.tree.line access) (.protectedAccess x) else s₁).tree = s₁.tree := by
    split <;> rfl
  simp only [CheckState.update, htree]
  refine ⟨?_, ?_, ?_⟩
  · simp only [Tree.resolveRemote, hattr', hsame.offers.effective]
  · rw [Tree.data_update_self _ hlt, haccess]
    rfl
  · split <;> rfl

/-- What the inspect statement leaves behind. -/
theorem exists_connected {block : Connection} {ty : Ty}
    (hform : s.tree.data statement = .statement (.inspect object [branch] none))
    (hobject : typeExpr (depth + 2) scope object s = .ok (.ref (some n)) s₁)
    (hbranch : s₁.tree.data branch = .connection block) (hwhen : block.whenClass = none)
    (hstatement : block.statement = some use)
    (huse : s₁.tree.data use = .expression (.nameUse x []) ty)
    (hunlinked : ∀ hidden, s₁.tree.protectedBy? hidden ≠ some branch) :
    ∃ connected, checkStatement (depth + 3) scope statement s = .ok () connected ∧
      (connected.tree.resolve branch x).declaration = some (s₁.tree.effective a.declaration) ∧
      (connected.tree.data use).expressionType? =
        some (s₁.tree.data (s₁.tree.effective a.declaration)).declaredType ∧
      connected.diagnostics = s₁.diagnostics := by
  have hne : use ≠ branch := by
    rintro rfl
    rw [hbranch] at huse
    cases huse
  have hlt : branch < s₁.tree.size := Tree.lt_of_data (by simp [hbranch])
  have huseLt : use < s₁.tree.size := Tree.lt_of_data (by simp [huse])
  -- Connecting the class changes the block, but nothing that the search for the attribute reads.
  have hconnect := Tree.sameClasses_withConnectedClass (some c) scope
    (show s₁.tree.identifier? branch = none by rw [Tree.identifier?, hbranch]; rfl) hunlinked
  have hbranch₂ : (s₁.update branch (withConnectedClass (some c) scope)).tree.data branch =
      .connection { block with
        classDeclaration := some c, declaredIn := block.declaredIn <|> some scope } := by
    have hdata := Tree.data_update_self (withConnectedClass (some c) scope) hlt
    rw [hbranch] at hdata
    exact hdata
  have huse₂ : (s₁.update branch (withConnectedClass (some c) scope)).tree.data use =
      .expression (.nameUse x []) ty :=
    (Tree.data_update_of_ne _ hne).trans huse
  have hattr₂ := (hconnect.findAttribute_eq c x true).trans hattr
  have htyped := @typeExpr_connected _ depth c x a _ _ _ _ hbranch₂ rfl huse₂ hattr₂
  refine ⟨_, checkStatement_inspect hform hobject hclass hbranch hwhen hstatement huse₂ htyped, ?_⟩
  have hretype := Tree.sameClasses_withExpressionType
    (s₁.update branch (withConnectedClass (some c) scope)).tree use
    (s₁.tree.data (s₁.tree.effective a.declaration)).declaredType
  have heffective := hconnect.offers.effective a.declaration
  have htype := hconnect.offers.declaredType (s₁.tree.effective a.declaration)
  dsimp only [CheckState.update] at hbranch₂ huse₂ hretype ⊢
  rw [heffective, htype]
  refine ⟨?_, ?_, rfl⟩
  · rw [Tree.resolve_of_connection ((Tree.data_update_of_ne _ hne.symm).trans hbranch₂) rfl
      ((hretype.findAttribute_eq c x true).trans hattr₂), hretype.offers.effective, heffective]
  · rw [Tree.data_update_self _ (by simpa using huseLt), huse₂]
    rfl

end

/-- **Remote and connected access.** Let an object be of a class that offers an attribute to
accesses from outside. A remote access to the attribute and its plain identifier in a connection
block for the object are both checked to the end, denote the same declaration and store the same
type. The connection block reports nothing; the remote access reports that the attribute is
protected if it is refused. So the two make the same reports exactly where the remote access is not
refused. -/
theorem access_by_connection (hforms : s.tree.AccessForms object x access statement branch use)
    (hobject : typeExpr (depth + 2) scope object s = .ok (.ref (some n)) s₁)
    (hclass : s₁.tree.lookupClass scope n = some c)
    (hattr : s₁.tree.findAttribute c x true = some a) :
    ∃ d ty remote connected,
      d = s₁.tree.effective a.declaration ∧ ty = (s₁.tree.data d).declaredType ∧
      typeExpr (depth + 3) scope access s = .ok ty remote ∧
      checkStatement (depth + 3) scope statement s = .ok () connected ∧
      (remote.tree.resolveRemote scope c x).declaration = some d ∧
      (connected.tree.resolve branch x).declaration = some d ∧
      (remote.tree.data access).expressionType? = some ty ∧
      (connected.tree.data use).expressionType? = some ty ∧
      connected.diagnostics = s₁.diagnostics ∧
      remote.diagnostics = (if accessRefused s₁.tree scope c a x then
        s₁.diagnostics.report ((Finding.protectedAccess x).onLine (s.tree.line access))
        else s₁.diagnostics) ∧
      (remote.diagnostics = connected.diagnostics ↔ accessRefused s₁.tree scope c a x = false) := by
  obtain ⟨⟨_, hremote⟩, hinspect, ⟨block, hblock, hwhen, hstatement⟩, ⟨_, huse⟩, hunlinked⟩ :=
    hforms
  have hretyped : s.tree.Retyped s₁.tree :=
    (typeExpr_follows typingFrame_retyped _ _ _).of_ok hobject
  obtain ⟨_, huse₁⟩ := hretyped.nameUse huse
  have hunlinked₁ : ∀ hidden, s₁.tree.protectedBy? hidden ≠ some branch := fun hidden => by
    rw [hretyped.protectedBy?]
    exact hunlinked hidden
  obtain ⟨remote, hrun, hmeaning, hstored, hreports⟩ :=
    exists_remote hclass hattr hremote hobject hretyped
  obtain ⟨connected, hrun', hmeaning', hstored', hreports'⟩ :=
    exists_connected hclass hattr hinspect hobject (hretyped.connection hblock) hwhen hstatement
      huse₁ hunlinked₁
  refine ⟨_, _, remote, connected, rfl, rfl, hrun, hrun', hmeaning, hmeaning', hstored, hstored',
    hreports', hreports, ?_⟩
  rw [hreports, hreports']
  cases accessRefused s₁.tree scope c a x with
  | false => simp
  | true => simp [Diagnostics.report_ne]

/-- A block with a class `A` that protects its attribute `X`, a variable `O` for objects of `A`, the
statement that inspects `O` with `X` as its branch, and the remote access `O.X`. -/
def protectedAttribute : CheckState where
  tree := { nodes := #[
    ⟨1, .declaration "MAIN" none (.block
      { declarations := ⟨#[("A", 1), ("O", 4)]⟩, statements := #[8] })⟩,
    ⟨2, .declaration "A" (some 0) (.classDeclaration
      { guarded := #[3], body := { declarations := ⟨#[("X", 2)]⟩ } })⟩,
    ⟨3, .declaration "X" (some 1) (.simpleVariable .integer none)⟩,
    ⟨3, .declaration "X" (some 1) (.protectedSpec none)⟩,
    ⟨4, .declaration "O" (some 0) (.simpleVariable (.ref (some "A")) none)⟩,
    ⟨5, .expression (.nameUse "O" []) .undefined⟩,
    ⟨5, .expression (.nameUse "X" []) .undefined⟩,
    ⟨5, .connection { inspected := some 5, statement := some 6 }⟩,
    ⟨5, .statement (.inspect 5 [7] none)⟩,
    ⟨6, .expression (.remote 5 "X" []) .undefined⟩] }

/-- Outside of `A` the remote access is refused, and the connection block makes the same attribute
visible without a report. -/
theorem access_by_connection_protectedAttribute : ∃ remote connected,
    typeExpr 3 0 9 protectedAttribute = .ok .integer remote ∧
    checkStatement 3 0 8 protectedAttribute = .ok () connected ∧
    (remote.tree.resolveRemote 0 1 "X").declaration = some 2 ∧
    (connected.tree.resolve 7 "X").declaration = some 2 ∧
    remote.diagnostics = Diagnostics.empty.report ((Finding.protectedAccess "X").onLine 6) ∧
    connected.diagnostics = Diagnostics.empty := by
  have hforms : protectedAttribute.tree.AccessForms 5 "X" 9 8 7 6 := by
    refine ⟨⟨.undefined, rfl⟩, rfl, ⟨_, rfl, rfl, rfl⟩, ⟨.undefined, rfl⟩, fun hidden hlink => ?_⟩
    have hlt : hidden < protectedAttribute.tree.size := Tree.lt_of_data fun hpending => by
      simp [Tree.protectedBy?, hpending] at hlink
    have hnone : ∀ id < 10, protectedAttribute.tree.protectedBy? id = none := by decide
    rw [hnone hidden hlt] at hlink
    cases hlink
  have hobject : succeedsWith (typeExpr 2 0 5) protectedAttribute (fun ty s₁ =>
      ty = .ref (some "A") ∧ s₁.tree.lookupClass 0 "A" = some 1 ∧
      s₁.tree.findAttribute 1 "X" true = some ⟨2, 1, false⟩ ∧
      s₁.tree.effective 2 = 2 ∧ (s₁.tree.data 2).declaredType = .integer ∧
      accessRefused s₁.tree 0 1 ⟨2, 1, false⟩ "X" ∧ s₁.diagnostics = Diagnostics.empty) = true := by
    decide +kernel
  obtain ⟨ty, s₁, hrun, htest⟩ := exists_of_succeedsWith hobject
  obtain ⟨rfl, hclass, hattr, heffective, htype, hrefused, hempty⟩ := of_decide_eq_true htest
  obtain ⟨d, ty, remote, connected, hd, hty, hremote, hconnected, hmeaning, hmeaning', -, -,
    hreports', hreports, -⟩ := access_by_connection hforms hrun hclass hattr
  obtain rfl : d = 2 := hd.trans heffective
  obtain rfl : ty = .integer := hty.trans htype
  rw [hrefused, if_pos rfl, hempty] at hreports
  exact ⟨remote, connected, hremote, hconnected, hmeaning, hmeaning', hreports,
    hreports'.trans hempty⟩

end CheckM

end Simula
