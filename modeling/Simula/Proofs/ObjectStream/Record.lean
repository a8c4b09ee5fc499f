import Simula.ObjectStream.Layout
import Simula.Proofs.Stream.Values
import Simula.Tree

/-!
# Records and the nodes they describe

The layout of a kind takes a node apart into the fields of its record and puts it together again.
A stored node comes back with every link led to the copy of its target; what is lost on the way
is said by `NodeData.relabel`, form by form.

Whether a record can be read back depends on its own fields and on the records that are still
being read around it.
-/

namespace Simula

namespace Layout

/-- A node put together from the fields of a kind is of that kind. -/
theorem kind_build {kind : Kind} {layout : Layout} (h : kind.layout? = some layout)
    (p : Payload layout.shapes) : (layout.build p).kind = kind := by
  cases kind <;> cases h <;> rfl

/-- The fields of a node put together from fields are those fields. -/
theorem fields_build {kind : Kind} {layout : Layout} (h : kind.layout? = some layout)
    (p : Payload layout.shapes) : layout.fields (layout.build p) = some p := by
  cases kind <;> cases h <;> rfl

/-- A node put together from fields is not pending. -/
theorem build_ne_pending {kind : Kind} {layout : Layout} (h : kind.layout? = some layout)
    (p : Payload layout.shapes) : layout.build p ≠ .pending := by
  intro hp
  have hkind := kind_build h p
  rw [hp] at hkind
  subst hkind
  cases h

end Layout

/-- The kind of a node that is not pending is no sentinel. -/
theorem NodeData.kind_ne_sentinel {d : NodeData} (h : d ≠ .pending) :
    d.kind ≠ .null ∧ d.kind ≠ .objectReference := by
  cases d with
  | pending => contradiction
  | declaration i s f => cases f <;> exact ⟨nofun, nofun⟩
  | connection c => exact ⟨nofun, nofun⟩
  | statement f => cases f <;> exact ⟨nofun, nofun⟩
  | expression f t => cases f <;> exact ⟨nofun, nofun⟩

/-- The nodes that a field is linked to, in the order in which they are stored. -/
def Shape.links : (s : Shape) → s.Value → List NodeId
  | .scalar _, _ => []
  | .link, l => l.toList
  | .child _, id => [id]
  | .children _, ids => ids
  | .declarations, l => l.nodes

/-- The nodes that the fields of a record are linked to, in order. -/
def Payload.links : (ss : List Shape) → Payload ss → List NodeId
  | [], _ => []
  | s :: ss, (v, vs) => s.links v ++ links ss vs

/-- The nodes that the record of a node is linked to, in order. -/
def NodeData.links (d : NodeData) : List NodeId :=
  match d.kind.layout? with
  | none => []
  | some layout => ((layout.fields d).map (Payload.links layout.shapes)).getD []

/-- The links of a node are those of its fields. -/
theorem NodeData.links_eq {d : NodeData} {layout : Layout} {p : Payload layout.shapes}
    (hl : d.kind.layout? = some layout) (hp : layout.fields d = some p) :
    d.links = Payload.links layout.shapes p := by
  rw [links, hl]
  simp only [hp, Option.map_some, Option.getD_some]

/-! ## Copies -/

/-- A stored link: one to a detached node is lost, any other leads to the copy of its target. -/
def copiedLink (detached : List NodeId) (copy : NodeId → NodeId) (l : Option NodeId) :
    Option NodeId :=
  (l.filter (· ∉ detached)).map copy

/-- A link to a detached node is lost. -/
theorem copiedLink_of_mem {detached : List NodeId} {id : NodeId} (h : id ∈ detached)
    (copy : NodeId → NodeId) : copiedLink detached copy (some id) = none := by
  simp [copiedLink, h]

/-- A link to any other node leads to its copy. -/
theorem copiedLink_of_notMem {detached : List NodeId} {id : NodeId} (h : id ∉ detached)
    (copy : NodeId → NodeId) : copiedLink detached copy (some id) = some (copy id) := by
  rw [copiedLink, Option.filter_some, if_pos (decide_eq_true h), Option.map_some]

section

variable (detached : List NodeId) (copy : NodeId → NodeId)

/-- Declarations with their members replaced by copies. -/
def DeclarationList.relabel (l : DeclarationList) : DeclarationList :=
  ⟨l.entries.map fun e => (e.1, copy e.2)⟩

/-- The common part of a scope with its nodes replaced by copies. The accumulated labels are
lost. -/
def Body.relabel (b : Body) : Body where
  declarations := b.declarations.relabel copy
  labels := { own := b.labels.own.map copy, ready := b.labels.ready }
  statements := b.statements.map copy

/-- The parts of a class with its nodes replaced by copies. -/
def ClassParts.relabel (c : ClassParts) : ClassParts where
  prefixName := c.prefixName
  prefixClass := copiedLink detached copy c.prefixClass
  parameters := c.parameters.map copy
  virtuals := c.virtuals.map copy
  hidden := c.hidden.map copy
  guarded := c.guarded.map copy
  body := c.body.relabel copy

/-- A declaration with its nodes replaced by copies. The module behind an external declaration
is lost. -/
def Declaration.relabel : Declaration → Declaration
  | external k file _ => external k file none
  | classDeclaration c => classDeclaration (c.relabel detached copy)
  | procedure t ps b => procedure t (ps.map copy) (b.relabel copy)
  | block b => block (b.relabel copy)
  | simpleVariable t c => simpleVariable t (copiedLink detached copy c)
  | array t n => array t n
  | parameter t m k => parameter t m k
  | label n => label n
  | hiddenSpec p => hiddenSpec (copiedLink detached copy p)
  | protectedSpec h => protectedSpec (copiedLink detached copy h)
  | virtualSpec k t => virtualSpec k t

/-- A branch of an inspect statement with its nodes replaced by copies. -/
def Connection.relabel (c : Connection) : Connection where
  declaredIn := copiedLink detached copy c.declaredIn
  inspected := copiedLink detached copy c.inspected
  whenClass := c.whenClass
  classDeclaration := copiedLink detached copy c.classDeclaration
  statement := copiedLink detached copy c.statement

/-- A statement with its nodes replaced by copies. -/
def Statement.relabel : Statement → Statement
  | standalone e => standalone (copy e)
  | ifThenElse c t e => ifThenElse (copy c) (copy t) (copiedLink detached copy e)
  | whileDo c b => whileDo (copy c) (copy b)
  | goto t => goto (copy t)
  | labeled ls s => labeled ls (copy s)
  | compound ss => compound (ss.map copy)
  | inspect o cs e => inspect (copy o) (cs.map copy) (copiedLink detached copy e)
  | dummy => dummy

/-- An expression with its nodes replaced by copies. Of a constant remains what an attribute
file keeps of it. -/
def Expression.relabel : Expression → Expression
  | constant c => constant c.kept
  | nameUse i args => nameUse i (args.map copy)
  | binary op l r => binary op (copy l) (copy r)
  | unary op e => unary op (copy e)
  | assignment op l r => assignment op (copy l) (copy r)
  | generator c args => generator c (args.map copy)
  | remote o i args => remote (copy o) i (args.map copy)
  | qualified o c => qualified (copy o) c
  | relation op o c => relation op (copy o) c
  | conversion e k => conversion (copy e) k

/-- The content of a node with its nodes replaced by copies. -/
def NodeData.relabel : NodeData → NodeData
  | pending => pending
  | declaration i s d => declaration i (copiedLink detached copy s) (d.relabel detached copy)
  | connection c => connection (c.relabel detached copy)
  | statement s => statement (s.relabel detached copy)
  | expression e t => expression (e.relabel copy) t

end

/-- Declarations under the identifiers of their members. -/
def DeclarationList.named (t : Tree) (l : DeclarationList) : DeclarationList :=
  ⟨l.entries.map fun e => ((t.identifier? e.2).getD "", e.2)⟩

/-- A scope with its declarations under the identifiers of their members; other nodes stay as
they are. -/
def NodeData.named (t : Tree) (d : NodeData) : NodeData :=
  d.modifyBody fun b => { b with declarations := b.declarations.named t }

/-- A copy declares or uses the identifier of its original. -/
theorem NodeData.identifier?_relabel (t : Tree) (detached : List NodeId) (copy : NodeId → NodeId)
    (d : NodeData) : ((d.named t).relabel detached copy).identifier? = d.identifier? := by
  cases d with
  | pending => rfl
  | declaration i s f => rfl
  | connection c => rfl
  | statement f => rfl
  | expression f ty => cases f <;> rfl

/-- Copies of an array taken through its list. -/
theorem toArray_map_toList (copy : NodeId → NodeId) (ids : Array NodeId) :
    (ids.toList.map copy).toArray = ids.map copy := by
  rw [← Array.toList_map, Array.toArray_toList]

/-- The common part of a scope put together from copied fields. -/
theorem Body.ofFields_relabel (t : Tree) (copy : NodeId → NodeId) (b : Body) :
    Body.ofFields ((b.declarations.named t).relabel copy) (b.labels.own.toList.map copy)
        b.labels.ready (b.statements.toList.map copy) =
      Body.relabel copy { b with declarations := b.declarations.named t } := by
  rw [ofFields, toArray_map_toList, toArray_map_toList]
  rfl

section

variable (t : Tree) (detached : List NodeId) (copy : NodeId → NodeId)

/-- What is read back from a field. -/
def Shape.copied : (s : Shape) → s.Value → s.Value
  | .scalar s, v => s.kept v
  | .link, l => copiedLink detached copy l
  | .child _, id => copy id
  | .children _, ids => ids.map copy
  | .declarations, l => (l.named t).relabel copy

/-- What is read back from the fields of a record. -/
def Payload.copied : (ss : List Shape) → Payload ss → Payload ss
  | [], _ => ()
  | s :: ss, (v, vs) => (s.copied t detached copy v, copied ss vs)

/-- Every node with content has a record, and the record read back gives the copy of the node. -/
theorem NodeData.exists_record {d : NodeData} (h : d ≠ .pending) :
    ∃ layout p, d.kind.layout? = some layout ∧ layout.fields d = some p ∧
      layout.build (Payload.copied t detached copy layout.shapes p) =
        (d.named t).relabel detached copy := by
  cases d with
  | pending => contradiction
  | declaration i s f =>
    cases f with
    | classDeclaration c =>
      refine ⟨_, _, rfl, rfl, ?_⟩
      simp only [Layout.classDeclaration, Payload.copied, Shape.copied, Scalar.kept,
        toArray_map_toList, Body.ofFields_relabel]
      rfl
    | procedure ty ps b =>
      refine ⟨_, _, rfl, rfl, ?_⟩
      simp only [Layout.procedure, Payload.copied, Shape.copied, Scalar.kept,
        toArray_map_toList, Body.ofFields_relabel]
      rfl
    | block b =>
      refine ⟨_, _, rfl, rfl, ?_⟩
      simp only [Layout.block, Payload.copied, Shape.copied, Scalar.kept, Body.ofFields_relabel]
      rfl
    | _ => exact ⟨_, _, rfl, rfl, rfl⟩
  | connection c => exact ⟨_, _, rfl, rfl, rfl⟩
  | statement f =>
    cases f with
    | compound ss =>
      refine ⟨_, _, rfl, rfl, ?_⟩
      simp only [Layout.compound, Payload.copied, Shape.copied, toArray_map_toList]
      rfl
    | _ => exact ⟨_, _, rfl, rfl, rfl⟩
  | expression f ty => cases f <;> exact ⟨_, _, rfl, rfl, rfl⟩

end

/-- Declarations that stand under the identifiers of their members keep their names. -/
theorem DeclarationList.named_eq {t : Tree} {l : DeclarationList}
    (h : ∀ e ∈ l.entries, t.identifier? e.2 = some e.1) : l.named t = l := by
  have hmap : l.entries.map (fun e => ((t.identifier? e.2).getD "", e.2)) = l.entries.map id := by
    refine Array.map_congr_left fun e he => ?_
    rw [h e he]
    rfl
  rw [named, hmap, Array.map_id]

/-- The entries of the declaration list of a scope. -/
def NodeData.entries (d : NodeData) : List (String × NodeId) :=
  (d.declarations?.map (·.entries.toList)).getD []

/-- A scope whose declarations stand under the identifiers of their members keeps their names. -/
theorem NodeData.named_eq {t : Tree} {d : NodeData}
    (h : ∀ e ∈ d.entries, t.identifier? e.2 = some e.1) : d.named t = d := by
  have hbody : ∀ b : Body, d.body? = some b → b.declarations.named t = b.declarations := by
    intro b hb
    refine DeclarationList.named_eq fun e he => h e ?_
    rw [entries, declarations?, hb]
    exact Array.mem_toList_iff.mpr he
  cases d with
  | declaration i s f =>
    cases f with
    | classDeclaration c => simp only [named, modifyBody, Declaration.modifyBody, hbody c.body rfl]
    | procedure ty ps b => simp only [named, modifyBody, Declaration.modifyBody, hbody b rfl]
    | block b => simp only [named, modifyBody, Declaration.modifyBody, hbody b rfl]
    | _ => rfl
  | _ => rfl

/-! ## Records that can be read back -/

/-- The nodes in the lists of a node and in its slots that cannot be empty. -/
def NodeData.mandatory : NodeData → List NodeId
  | declaration _ _ (.simpleVariable _ _) => []
  | declaration _ _ d => d.children
  | statement (.ifThenElse c t _) => [c, t]
  | statement (.inspect o cs _) => o :: cs
  | statement s => s.children
  | expression e _ => e.children
  | _ => []

/-- The kind of the module that an external declaration announces. -/
def NodeData.moduleKind? : NodeData → Option Kind
  | declaration _ _ (.external k _ _) => some k
  | _ => none

/-- The nodes that a scope declares. -/
def NodeData.declared (d : NodeData) : List NodeId :=
  (d.declarations?.map (·.nodes)).getD []

/-- Two nodes of a tree that have different identifiers. -/
def Tree.DistinctNames (t : Tree) (a b : NodeId) : Prop :=
  ∀ i ∈ t.identifier? a, ∀ j ∈ t.identifier? b, t.sameIdentifier i j = false

section

variable (t : Tree) (detached opened : List NodeId)

instance (a b : NodeId) : Decidable (t.DistinctNames a b) :=
  inferInstanceAs (Decidable (∀ i ∈ t.identifier? a, ∀ j ∈ t.identifier? b,
    t.sameIdentifier i j = false))

/-- Nodes that can be declared together while the nodes in `opened` are incomplete. -/
structure Tree.Declarable (ids : List NodeId) : Prop where
  complete : ∀ id ∈ ids, id ∉ opened
  named : ∀ id ∈ ids, (t.identifier? id).isSome
  distinct : ids.Pairwise t.DistinctNames

instance (ids : List NodeId) : Decidable (t.Declarable opened ids) :=
  decidable_of_iff ((∀ id ∈ ids, id ∉ opened) ∧ (∀ id ∈ ids, (t.identifier? id).isSome) ∧
      ids.Pairwise t.DistinctNames)
    ⟨fun ⟨h₁, h₂, h₃⟩ => ⟨h₁, h₂, h₃⟩, fun ⟨h₁, h₂, h₃⟩ => ⟨h₁, h₂, h₃⟩⟩

/-- What makes the record of a node readable while the records of the nodes in `opened` are being
read. -/
structure NodeData.Readable (d : NodeData) : Prop where
  /-- No detached node is in a list or in a slot that cannot be empty. -/
  attached : ∀ id ∈ d.mandatory, id ∉ detached
  /-- A separately compiled module is a class or a procedure. -/
  isModule : ∀ k ∈ d.moduleKind?, k.isModule = true
  /-- What a scope declares can be put into a list again. -/
  declarable : t.Declarable opened d.declared

/-- A record is readable if each of the three conditions holds. -/
theorem NodeData.readable_iff_and {d : NodeData} :
    d.Readable t detached opened ↔ (∀ id ∈ d.mandatory, id ∉ detached) ∧
      (∀ k ∈ d.moduleKind?, k.isModule = true) ∧ t.Declarable opened d.declared :=
  ⟨fun ⟨h₁, h₂, h₃⟩ => ⟨h₁, h₂, h₃⟩, fun ⟨h₁, h₂, h₃⟩ => ⟨h₁, h₂, h₃⟩⟩

instance (d : NodeData) : Decidable (d.Readable t detached opened) :=
  decidable_of_iff _ (NodeData.readable_iff_and t detached opened).symm

/-- Whether a field can be read back. -/
def Shape.Readable : (s : Shape) → s.Value → Prop
  | .scalar s, v => s.Readable v
  | .link, _ => True
  | .child _, id => id ∉ detached
  | .children _, ids => ∀ id ∈ ids, id ∉ detached
  | .declarations, l => (∀ id ∈ l.nodes, id ∉ detached) ∧ t.Declarable opened l.nodes

/-- Whether all fields of a record can be read back. -/
def Payload.Readable : (ss : List Shape) → Payload ss → Prop
  | [], _ => True
  | s :: ss, (v, vs) => s.Readable t detached opened v ∧ Readable ss vs

/-- The record of a node can be read back if and only if all its fields can. -/
theorem NodeData.readable_iff {d : NodeData} {layout : Layout} {p : Payload layout.shapes}
    (hl : d.kind.layout? = some layout) (hp : layout.fields d = some p) :
    d.Readable t detached opened ↔ Payload.Readable t detached opened layout.shapes p := by
  have hnone : t.Declarable opened [] := ⟨nofun, nofun, .nil⟩
  rw [readable_iff_and]
  cases d with
  | pending => cases hl
  | declaration i s f =>
    cases f <;> cases hl <;> cases hp <;>
      simp [mandatory, moduleKind?, declared, declarations?, body?, Declaration.body?,
        Declaration.children, Body.children, hnone, Payload.Readable, Shape.Readable,
        Scalar.Readable, or_imp, forall_and, and_assoc, and_left_comm, and_comm, Layout.external,
        Layout.classDeclaration, Layout.procedure, Layout.block, Layout.simpleVariable,
        Layout.array, Layout.parameter, Layout.label, Layout.hiddenSpec, Layout.protectedSpec,
        Layout.virtualSpec]
  | connection c =>
    cases hl
    cases hp
    simp [mandatory, moduleKind?, declared, declarations?, body?, hnone, Payload.Readable,
      Shape.Readable, Scalar.Readable, Layout.connectionBlock]
  | statement f =>
    cases f <;> cases hl <;> cases hp <;>
      simp [mandatory, moduleKind?, declared, declarations?, body?, Statement.children, hnone,
        Payload.Readable, Shape.Readable, Scalar.Readable, Layout.standalone, Layout.ifThenElse,
        Layout.whileDo, Layout.goto, Layout.labeled, Layout.compound, Layout.inspect, Layout.dummy]
  | expression f ty =>
    cases f <;> cases hl <;> cases hp <;>
      simp [mandatory, moduleKind?, declared, declarations?, body?, Expression.children, hnone,
        Payload.Readable, Shape.Readable, Scalar.Readable, Layout.constant, Layout.nameUse,
        Layout.binary, Layout.unary, Layout.assignment, Layout.generator, Layout.remote,
        Layout.qualified, Layout.relation, Layout.conversion]

end

/-! ## Links -/

/-- What is below a node is stored in its record. -/
theorem NodeData.children_subset_links (d : NodeData) : d.children ⊆ d.links := by
  intro id hid
  cases d with
  | pending => cases hid
  | declaration i s f =>
    cases f <;> simp [children, Declaration.children, Body.children] at hid <;>
      simp [links, kind, Declaration.kind, Kind.layout?, Payload.links, Shape.links,
        Layout.classDeclaration, Layout.procedure, Layout.block, Layout.simpleVariable, hid]
  | connection c =>
    simp [children] at hid
    simp [links, kind, Kind.layout?, Payload.links, Shape.links, Layout.connectionBlock, hid]
  | statement f =>
    cases f <;> simp [children, Statement.children] at hid <;>
      simp [links, kind, Statement.kind, Kind.layout?, Payload.links, Shape.links,
        Layout.standalone, Layout.ifThenElse, Layout.whileDo, Layout.goto, Layout.labeled,
        Layout.compound, Layout.inspect, hid]
  | expression f ty =>
    cases f <;> simp [children, Expression.children] at hid <;>
      simp [links, kind, Expression.kind, Kind.layout?, Payload.links, Shape.links,
        Layout.nameUse, Layout.binary, Layout.unary, Layout.assignment, Layout.generator,
        Layout.remote, Layout.qualified, Layout.relation, Layout.conversion, hid]

section

variable {t : Tree} {detached opened : List NodeId}

/-- The links read back from a field lead to copies of attached nodes. -/
theorem Shape.exists_link_of_copied (copy : NodeId → NodeId) {s : Shape} {v : s.Value}
    (h : s.Readable t detached opened v) {l : NodeId}
    (hl : l ∈ s.links (s.copied t detached copy v)) :
    ∃ id ∈ s.links v, id ∉ detached ∧ l = copy id := by
  cases s with
  | scalar s => cases hl
  | link =>
    cases v with
    | none => cases hl
    | some id =>
      by_cases hid : id ∈ detached
      · rw [copied, copiedLink_of_mem hid] at hl
        cases hl
      · rw [copied, copiedLink_of_notMem hid] at hl
        exact ⟨id, List.mem_singleton_self id, hid, List.mem_singleton.mp hl⟩
  | child m => exact ⟨v, List.mem_singleton_self v, h, List.mem_singleton.mp hl⟩
  | children m =>
    obtain ⟨id, hid, rfl⟩ := List.mem_map.mp hl
    exact ⟨id, hid, h id hid, rfl⟩
  | declarations =>
    have hnodes : ((v.named t).relabel copy).nodes = v.nodes.map copy := by
      simp [DeclarationList.nodes, DeclarationList.named, DeclarationList.relabel]
    rw [links, copied, hnodes] at hl
    obtain ⟨id, hid, rfl⟩ := List.mem_map.mp hl
    exact ⟨id, hid, h.1 id hid, rfl⟩

/-- The links read back from the fields of a record lead to copies of attached nodes. -/
theorem Payload.exists_link_of_copied (copy : NodeId → NodeId) {ss : List Shape} {p : Payload ss}
    (h : Payload.Readable t detached opened ss p) {l : NodeId}
    (hl : l ∈ Payload.links ss (Payload.copied t detached copy ss p)) :
    ∃ id ∈ Payload.links ss p, id ∉ detached ∧ l = copy id := by
  induction ss with
  | nil => cases hl
  | cons s ss ih =>
    obtain ⟨v, vs⟩ := p
    rcases List.mem_append.mp hl with hl | hl
    · obtain ⟨id, hid, hcopy⟩ := Shape.exists_link_of_copied copy h.1 hl
      exact ⟨id, List.mem_append_left _ hid, hcopy⟩
    · obtain ⟨id, hid, hcopy⟩ := ih h.2 hl
      exact ⟨id, List.mem_append_right _ hid, hcopy⟩

/-- The links of a copy lead to copies of attached nodes. -/
theorem NodeData.exists_link_of_relabel (copy : NodeId → NodeId) {d : NodeData}
    (h : d.Readable t detached opened) {l : NodeId}
    (hl : l ∈ ((d.named t).relabel detached copy).links) :
    ∃ id ∈ d.links, id ∉ detached ∧ l = copy id := by
  by_cases hd : d = .pending
  · subst hd
    cases hl
  obtain ⟨layout, p, hlayout, hp, hbuild⟩ := exists_record t detached copy hd
  rw [← hbuild, links_eq ((Layout.kind_build hlayout _).symm ▸ hlayout)
    (Layout.fields_build hlayout _)] at hl
  rw [links_eq hlayout hp]
  exact Payload.exists_link_of_copied copy ((readable_iff t detached opened hlayout hp).mp h) hl

end

end Simula
