import Simula.ObjectStream.Reader
import Simula.Proofs.Effects
import Simula.Proofs.ObjectStream.Record
import Simula.Proofs.Stream.Parsing

/-!
# The steps of reading an object

An object is read in a few kinds of steps only: values are taken off the input, numbers are looked
up, nodes are listed as declarations, and a record begins with its node and ends with the content of
it. A relation between reading actions that each of these steps respects is respected by the fields
of a record, by an object, and by the objects in it to any depth. So what is to be shown of the
reader is shown of its steps.

The relations have two sides, for actions that read the objects in a record in two ways; a property
of one action is a relation that does not look at the other side. They may say something of the
value that has been read, and see of it the nodes in it and what has been stored in place.
-/

namespace Simula

/-- Every kind that starts a record has a layout. -/
theorem Kind.exists_layout {kind : Kind} (hnull : kind ≠ .null) (href : kind ≠ .objectReference) :
    ∃ layout, kind.layout? = some layout := by
  cases kind <;> first | exact ⟨_, rfl⟩ | contradiction

/-- A list that has been put together declares the nodes it was made of. -/
theorem nodes_declarationList {tree : Tree} {l l' : DeclarationList} {ids : List NodeId}
    (h : Reader.declarationList tree l ids = .ok l') : l'.nodes = l.nodes ++ ids := by
  induction ids generalizing l with
  | nil =>
    cases h
    rw [List.append_nil]
  | cons id ids ih =>
    rw [Reader.declarationList] at h
    cases hname : tree.identifier? id with
    | none =>
      rw [hname] at h
      cases h
    | some i =>
      rw [hname] at h
      by_cases htaken : (l.find? tree.caseRule i).isSome
      · simp only [DeclarationList.insert?, if_pos htaken] at h
        cases h
      · simp only [DeclarationList.insert?, if_neg htaken] at h
        rw [ih h]
        simp [DeclarationList.nodes]

/-! ## Views of a value -/

/-- What a field stores in place. -/
def Shape.Stored : Shape → Type
  | .scalar s => s.Value
  | _ => Unit

/-- What the value of a field stores in place. -/
def Shape.stored : (s : Shape) → s.Value → s.Stored
  | .scalar _, v => v
  | .link, _ | .child _, _ | .children _, _ | .declarations, _ => ()

/-- What the fields of a record store in place. -/
def Payload.Stored : List Shape → Type
  | [] => Unit
  | s :: ss => s.Stored × Stored ss

/-- What the values of the fields of a record store in place. -/
def Payload.stored : (ss : List Shape) → Payload ss → Payload.Stored ss
  | [], _ => ()
  | s :: ss, (v, vs) => (s.stored v, stored ss vs)

namespace Reader

/-- What is seen of a value that has been read. -/
structure View (α κ : Type) where
  /-- The nodes in it. -/
  links : α → List NodeId
  /-- What it stores in place. -/
  stored : α → κ

namespace View

/-- A value without nodes is stored in place. -/
def value {α : Type} : View α α := ⟨fun _ => [], id⟩

/-- An object that may be absent. -/
def link : View (Option NodeId) Unit := ⟨Option.toList, fun _ => ()⟩

/-- An object that is there. -/
def node : View NodeId Unit := ⟨fun id => [id], fun _ => ()⟩

/-- Objects one after the other. -/
def nodes : View (List NodeId) Unit := ⟨id, fun _ => ()⟩

/-- Objects that are listed as declarations. -/
def declarations : View DeclarationList Unit := ⟨DeclarationList.nodes, fun _ => ()⟩

/-- A field. -/
def field (s : Shape) : View s.Value s.Stored := ⟨s.links, s.stored⟩

/-- The fields of a record. -/
def fields (ss : List Shape) : View (Payload ss) (Payload.Stored ss) :=
  ⟨Payload.links ss, Payload.stored ss⟩

end View

/-! ## Steps -/

/-- Lists nodes of the tree as declarations. -/
def declare (ids : List NodeId) : Reader DeclarationList := do
  match declarationList (← get).tree {} ids with
  | .ok list => return list
  | .error e => throw e

/-- Looks up the node that is registered under a number. -/
def refer (sequence : Int) : Reader (Option NodeId) := do
  match (← get).objects.lookup sequence with
  | some id => return some id
  | none => throw (.linkage sequence)

/-- Nodes that have been listed were read before. -/
theorem declare_eq_ok {ids : List NodeId} {s s' : ReaderState} {list : DeclarationList}
    (h : declare ids s = .ok list s') : declarationList s.tree {} ids = .ok list ∧ s = s' := by
  rw [declare, bind_of_ok (get_apply s)] at h
  cases hlist : declarationList s.tree {} ids with
  | error e =>
    rw [hlist] at h
    cases h
  | ok list₁ =>
    rw [hlist] at h
    obtain ⟨rfl, rfl⟩ := pure_eq_ok.mp h
    exact ⟨rfl, rfl⟩

/-- Nodes that can be listed are listed. -/
theorem declare_of_ok {ids : List NodeId} {s : ReaderState} {list : DeclarationList}
    (h : declarationList s.tree {} ids = .ok list) : declare ids s = .ok list s := by
  rw [declare, bind_of_ok (get_apply s), h]
  rfl

/-- A number that has been looked up is that of a registered node. -/
theorem refer_eq_ok {sequence : Int} {s s' : ReaderState} {l : Option NodeId}
    (h : refer sequence s = .ok l s') :
    ∃ id, s.objects.lookup sequence = some id ∧ l = some id ∧ s = s' := by
  rw [refer, bind_of_ok (get_apply s)] at h
  cases hlookup : s.objects.lookup sequence with
  | none =>
    rw [hlookup] at h
    cases h
  | some id =>
    rw [hlookup] at h
    obtain ⟨rfl, rfl⟩ := pure_eq_ok.mp h
    exact ⟨id, rfl, rfl, rfl⟩

/-- The number of a registered node leads to it. -/
theorem refer_of_known {sequence : Int} {s : ReaderState} {id : NodeId}
    (h : s.objects.lookup sequence = some id) : refer sequence s = .ok (some id) s := by
  rw [refer, bind_of_ok (get_apply s), h]
  rfl

/-- Takes a record behind its head. -/
def takeRecord (readLink : Reader (Option NodeId)) (layout : Layout) (sequence : Int)
    (line : Nat) : Reader (Option NodeId) := do
  let id ← register sequence line
  complete id (layout.build (← takePayload readLink layout.shapes))
  return some id

/-- A tag that is no sentinel starts a record. -/
theorem takeTagged_record {readLink : Reader (Option NodeId)} {kind : Kind}
    (hnull : kind ≠ .null) (href : kind ≠ .objectReference) :
    takeTagged readLink kind = (do
      let sequence ← take Decoder.short
      let line ← take Decoder.count
      let id ← register sequence line
      complete id (← takeData readLink kind)
      return some id) := by
  cases kind <;> first | rfl | contradiction

/-- An object of a kind with a layout is a record. -/
theorem takeTagged_of_layout {readLink : Reader (Option NodeId)} {kind : Kind} {layout : Layout}
    (hnull : kind ≠ .null) (href : kind ≠ .objectReference) (h : kind.layout? = some layout) :
    takeTagged readLink kind = (do
      let sequence ← take Decoder.short
      let line ← take Decoder.count
      takeRecord readLink layout sequence line) := by
  simp only [takeTagged_record hnull href, takeRecord, takeData, h, bind_assoc, pure_bind]

/-! ## Frames -/

/-- A relation that the steps of reading fields respect. -/
structure FieldFrame (R : ∀ {α κ : Type}, View α κ → Reader α → Reader α → Prop) : Prop where
  /-- A value without nodes may be given back. -/
  give : ∀ {α κ : Type} {v : View α κ} {a : α}, v.links a = [] → R v (pure a) (pure a)
  /-- A value that is taken off the input may decide what follows. -/
  taken : ∀ {α β κ : Type} {v : View β κ} {d : Decoder α} {f g : α → Reader β},
    Parses FileFault d → (∀ a, R v (f a) (g a)) → R v (take d >>= f) (take d >>= g)
  /-- An object may be required to be there. -/
  child : ∀ {x y : Reader (Option NodeId)}, R .link x y → ∀ role,
    R .node (takeChild x role) (takeChild y role)
  /-- Two values may be taken one after the other and be put together. -/
  both : ∀ {α β γ κ κ' κ'' : Type} {u : View α κ} {v : View β κ'} {w : View γ κ''}
    {x x' : Reader α} {y y' : Reader β} {f : α → β → γ} {g : κ → κ' → κ''},
    R u x x' → R v y y' → (∀ a b, w.links (f a b) = u.links a ++ v.links b) →
    (∀ a b, w.stored (f a b) = g (u.stored a) (v.stored b)) →
    R w (do let a ← x; let b ← y; return f a b) (do let a ← x'; let b ← y'; return f a b)
  /-- Objects may be listed as declarations. -/
  listed : ∀ {x y : Reader (List NodeId)}, R .nodes x y →
    R .declarations (x >>= declare) (y >>= declare)

/-- A relation that the steps of reading objects respect. -/
structure ObjectFrame (R : ∀ {α κ : Type}, View α κ → Reader α → Reader α → Prop) : Prop
    extends FieldFrame R where
  /-- The input may end. -/
  ended : R .link (throw (.format .endOfInput)) (throw (.format .endOfInput))
  /-- An object may be one that has been numbered. -/
  known : ∀ sequence, R .link (refer sequence) (refer sequence)
  /-- A record may be read around its fields. -/
  record : ∀ {x y : Reader (Option NodeId)} {kind : Kind} {layout : Layout},
    kind.layout? = some layout →
    R (.fields layout.shapes) (takePayload x layout.shapes) (takePayload y layout.shapes) →
    ∀ sequence line, R .link (takeRecord x layout sequence line) (takeRecord y layout sequence line)

namespace FieldFrame

/-- A relation that does not look at values respects the steps of reading fields if it respects
sequences and the few actions that they are made of. -/
theorem of_bind {R : ∀ {α : Type}, Reader α → Reader α → Prop}
    (hpure : ∀ {α : Type} (a : α), R (pure a) (pure a))
    (hbind : ∀ {α β : Type} {x y : Reader α} {f g : α → Reader β}, R x y →
      (∀ a, R (f a) (g a)) → R (x >>= f) (y >>= g))
    (htake : ∀ {α : Type} {d : Decoder α}, Parses FileFault d → R (take d) (take d))
    (hmissing : ∀ role, R (throw (.protocol (.missing role)) : Reader NodeId)
      (throw (.protocol (.missing role))))
    (hdeclare : ∀ ids, R (declare ids) (declare ids)) :
    FieldFrame fun _ x y => R x y where
  give _ := hpure _
  taken hd hf := hbind (htake hd) hf
  child hx role := hbind hx fun l => by
    cases l with
    | none => exact hmissing role
    | some id => exact hpure id
  both hx hy _ _ := hbind hx fun _ => hbind hy fun _ => hpure _
  listed hx := hbind hx hdeclare

variable {R : ∀ {α κ : Type}, View α κ → Reader α → Reader α → Prop} (h : FieldFrame R)
variable {x y : Reader (Option NodeId)} (hlink : R .link x y)
include h

/-- A value that is taken off the input is respected. -/
theorem take {α : Type} {d : Decoder α} (hd : Parses FileFault d) :
    R .value (take d) (take d) := by
  have hgiven := h.taken hd fun a => h.give (v := .value) (a := a) rfl
  rwa [bind_pure] at hgiven

include hlink

/-- Any number of objects is respected. -/
theorem takeChildren (role : String) (n : Nat) :
    R .nodes (takeChildren x role n) (takeChildren y role n) := by
  induction n with
  | zero => exact h.give rfl
  | succ n ih =>
    exact h.both (h.child hlink role) ih (fun _ _ => rfl) (g := fun _ _ => ()) fun _ _ => rfl

/-- A list of objects is respected. -/
theorem takeList (role : String) : R .nodes (takeList x role) (takeList y role) :=
  h.taken Decoder.count_parses fun n => h.takeChildren hlink role n

/-- The declarations of a scope are respected. -/
theorem takeDeclarations : R .declarations (takeDeclarations x) (takeDeclarations y) :=
  h.listed (h.takeList hlink "declaration")

/-- A field is respected, whatever its shape. -/
theorem takeField (s : Shape) : R (.field s) (takeField x s) (takeField y s) := by
  cases s with
  | scalar s => exact h.take s.take_parses
  | link => exact hlink
  | child role => exact h.child hlink role
  | children role => exact h.takeList hlink role
  | declarations => exact h.takeDeclarations hlink

/-- The fields of a record are respected, field by field. -/
theorem takePayload (ss : List Shape) :
    R (.fields ss) (takePayload x ss) (takePayload y ss) := by
  induction ss with
  | nil => exact h.give rfl
  | cons s ss ih =>
    exact h.both (h.takeField hlink s) ih (fun _ _ => rfl) (g := Prod.mk) fun _ _ => rfl

end FieldFrame

namespace ObjectFrame

variable {R : ∀ {α κ : Type}, View α κ → Reader α → Reader α → Prop} (h : ObjectFrame R)
include h

/-- An object behind its tag is respected if the objects in it are. -/
theorem takeTagged {x y : Reader (Option NodeId)} (hlink : R .link x y) (kind : Kind) :
    R .link (takeTagged x kind) (takeTagged y kind) := by
  by_cases hnull : kind = .null
  · subst hnull
    exact h.give rfl
  by_cases href : kind = .objectReference
  · subst href
    exact h.taken Decoder.short_parses h.known
  obtain ⟨layout, hlayout⟩ := Kind.exists_layout hnull href
  rw [takeTagged_of_layout hnull href hlayout, takeTagged_of_layout hnull href hlayout]
  exact h.taken Decoder.short_parses fun sequence => h.taken Decoder.count_parses fun line =>
    h.record hlayout (h.takePayload hlink layout.shapes) sequence line

/-- An object is respected, however many records may be open at a time. -/
theorem objectWithin (depth : Nat) : R .link (objectWithin depth) (objectWithin depth) := by
  induction depth with
  | zero => exact h.ended
  | succ depth ih => exact h.taken Decoder.kind_parses fun kind => h.takeTagged ih kind

end ObjectFrame

end Reader

end Simula
