import Simula.Proofs.ObjectStream.Fields
import Simula.Proofs.ObjectStream.Growth

/-!
# Reading does not depend on the tree

The reader looks at nothing in the tree but at the faces of the nodes that the stream itself has
numbered: at their identifiers, and at the file names of external declarations. So a stream that can
be read into one tree can be read into any other with the same case rule, and shows the same faces
there, whatever else the two trees hold and whatever node numbers they hand out.
-/

namespace Simula

/-- The file that an external declaration names. -/
def NodeData.file? : NodeData → Option String
  | .declaration _ _ (.external _ file _) => some file
  | _ => none

/-- What is known of a node without following its links: its identifier, and the file that it
names. -/
def NodeData.face (d : NodeData) : Option String × Option String := (d.identifier?, d.file?)

/-- The face of a node of a tree. -/
def Tree.face (t : Tree) (id : NodeId) : Option String × Option String := (t.data id).face

/-! ## Nodes with the same faces -/

/-- The nodes of one tree have, one by one, the faces of those of another. -/
structure Tree.SameFaces (t : Tree) (ids : List NodeId) (u : Tree) (ids' : List NodeId) : Prop where
  faces : ids.map t.face = ids'.map u.face
  lt_size : ∀ id ∈ ids, id < t.size
  lt_size' : ∀ id ∈ ids', id < u.size

namespace Tree

variable {t t₁ u u₁ : Tree}

namespace SameFaces

variable {ids ids' more more' : List NodeId}

/-- Nodes keep their faces while the trees grow. -/
theorem mono (h : t.SameFaces ids u ids') (ht : t.Keeps NodeData.face t₁)
    (hu : u.Keeps NodeData.face u₁) :
    t₁.SameFaces ids u₁ ids' where
  faces := by
    have ht' : ids.map t₁.face = ids.map t.face :=
      List.map_congr_left fun id hid => ht.same id (h.lt_size id hid)
    have hu' : ids'.map u₁.face = ids'.map u.face :=
      List.map_congr_left fun id hid => hu.same id (h.lt_size' id hid)
    rw [ht', hu', h.faces]
  lt_size id hid := Nat.lt_of_lt_of_le (h.lt_size id hid) ht.size_le
  lt_size' id hid := Nat.lt_of_lt_of_le (h.lt_size' id hid) hu.size_le

/-- Nodes with the same faces can be put together. -/
theorem append (h : t.SameFaces ids u ids') (h' : t.SameFaces more u more') :
    t.SameFaces (ids ++ more) u (ids' ++ more') where
  faces := by rw [List.map_append, List.map_append, h.faces, h'.faces]
  lt_size id hid := (List.mem_append.mp hid).elim (h.lt_size id) (h'.lt_size id)
  lt_size' id hid := (List.mem_append.mp hid).elim (h.lt_size' id) (h'.lt_size' id)

/-- Nodes with the same faces are declared under the same identifiers. -/
theorem exists_declarationList (h : t.SameFaces ids u ids') (hrule : u.caseRule = t.caseRule)
    {l l' list : DeclarationList} (hl : l'.entries.map (·.1) = l.entries.map (·.1))
    (hlist : Reader.declarationList t l ids = .ok list) :
    ∃ list', Reader.declarationList u l' ids' = .ok list' := by
  induction ids generalizing ids' l l' with
  | nil =>
    obtain rfl : ids' = [] := List.map_eq_nil_iff.mp h.faces.symm
    exact ⟨l', rfl⟩
  | cons id ids ih =>
    obtain ⟨id', rest', rfl⟩ : ∃ id' rest', ids' = id' :: rest' := by
      cases ids' with
      | nil => cases h.faces
      | cons id' rest' => exact ⟨id', rest', rfl⟩
    obtain ⟨hface, hfaces⟩ := List.cons.inj h.faces
    have hname : u.identifier? id' = t.identifier? id := congrArg Prod.fst hface.symm
    have hrest : t.SameFaces ids u rest' :=
      ⟨hfaces, fun i hi => h.lt_size i (List.mem_cons_of_mem _ hi),
        fun i hi => h.lt_size' i (List.mem_cons_of_mem _ hi)⟩
    rw [Reader.declarationList] at hlist ⊢
    cases hi : t.identifier? id with
    | none =>
      rw [hi] at hlist
      cases hlist
    | some i =>
      rw [hi] at hlist
      rw [hname, hi]
      -- Whether the identifier is taken shows in the identifiers of the entries alone.
      have htaken : (∃ e ∈ l'.entries, u.caseRule.same e.1 i = true) ↔
          ∃ e ∈ l.entries, t.caseRule.same e.1 i = true := by
        have hnames : ∀ k : DeclarationList, (∃ e ∈ k.entries, t.caseRule.same e.1 i = true) ↔
            ∃ n ∈ k.entries.map (·.1), t.caseRule.same n i = true := by
          simp
        rw [hrule, hnames, hnames, hl]
      simp only [DeclarationList.insert?_eq] at hlist ⊢
      by_cases hfree : ∃ e ∈ l.entries, t.caseRule.same e.1 i = true
      · rw [if_pos hfree] at hlist
        cases hlist
      · rw [if_neg hfree] at hlist
        rw [if_neg fun h => hfree (htaken.mp h)]
        exact ih hrest (by simp [hl]) hlist

end SameFaces

end Tree

/-! ## States that look alike -/

namespace ReaderState

/-- The registered nodes are different nodes of the tree. -/
structure Registers (r : ReaderState) : Prop where
  lt_size : ∀ id ∈ r.objects.map (·.2), id < r.tree.size
  nodup : (r.objects.map (·.2)).Nodup

/-- The faces of the registered nodes, by number. -/
def faces (r : ReaderState) : List (Int × Option String × Option String) :=
  r.objects.map fun e => (e.1, r.tree.face e.2)

/-- The reader can see no difference between the two states. -/
structure Alike (r q : ReaderState) : Prop where
  input : q.input = r.input
  caseRule : q.tree.caseRule = r.tree.caseRule
  faces : q.faces = r.faces
  registers : r.Registers
  registers' : q.Registers

variable {r r' q q' s u : ReaderState}

/-- Reading on registers further nodes. -/
theorem Registers.mono (h : r.Registers) (he : r.Extends r') : r'.Registers where
  lt_size id hid := by
    rw [he.registered, List.mem_append, List.mem_reverse, List.mem_range'_1] at hid
    rcases hid with ⟨hle, hlt⟩ | hold
    · have := he.size_le
      omega
    · exact Nat.lt_of_lt_of_le (h.lt_size id hold) he.size_le
  nodup := by
    rw [he.registered, List.nodup_append]
    refine ⟨List.nodup_reverse.mpr List.nodup_range', h.nodup, fun id hid id' hid' => ?_⟩
    rw [List.mem_reverse, List.mem_range'_1] at hid
    exact Nat.ne_of_gt (Nat.lt_of_lt_of_le (h.lt_size id' hid') hid.1)

/-- A number is looked up with the face of its node. -/
theorem lookup_faces (r : ReaderState) (sequence : Int) :
    r.faces.lookup sequence = (r.objects.lookup sequence).map r.tree.face := by
  rw [faces]
  induction r.objects with
  | nil => rfl
  | cons e rest ih =>
    rw [List.map_cons, List.lookup_cons, List.lookup_cons, ih]
    cases sequence == e.1 <;> rfl

/-- The faces of the registered nodes stay while only other nodes are added. -/
theorem Registers.faces_eq {t : Tree} (h : r.Registers) (ht : r.tree.Keeps NodeData.face t)
    (input : Bytes) : faces ⟨input, t, r.objects⟩ = r.faces :=
  List.map_congr_left fun e he =>
    congrArg (e.1, ·) (ht.same e.2 (h.lt_size e.2 (List.mem_map_of_mem he)))

namespace Alike

/-- States that look alike do so behind the same value. -/
theorem setInput (h : r.Alike q) (input : Bytes) :
    Alike ⟨input, r.tree, r.objects⟩ ⟨input, q.tree, q.objects⟩ :=
  ⟨rfl, h.caseRule, h.faces, ⟨h.registers.lt_size, h.registers.nodup⟩,
    ⟨h.registers'.lt_size, h.registers'.nodup⟩⟩

/-- States that look alike do so while nodes are added that their streams have not numbered. -/
theorem setTrees (h : r.Alike q) {t u : Tree} (ht : r.tree.Keeps NodeData.face t)
    (hu : q.tree.Keeps NodeData.face u) (hrule : t.caseRule = r.tree.caseRule)
    (hrule' : u.caseRule = q.tree.caseRule) :
    Alike ⟨r.input, t, r.objects⟩ ⟨q.input, u, q.objects⟩ where
  input := h.input
  caseRule := (hrule'.trans h.caseRule).trans hrule.symm
  faces := by rw [h.registers.faces_eq ht, h.registers'.faces_eq hu, h.faces]
  registers := ⟨fun id hid => Nat.lt_of_lt_of_le (h.registers.lt_size id hid) ht.size_le,
    h.registers.nodup⟩
  registers' := ⟨fun id hid => Nat.lt_of_lt_of_le (h.registers'.lt_size id hid) hu.size_le,
    h.registers'.nodup⟩

/-- A number is free in both states or in none, and stands for nodes with the same face. -/
theorem lookup_eq (h : r.Alike q) (sequence : Int) :
    (q.objects.lookup sequence).map q.tree.face = (r.objects.lookup sequence).map r.tree.face := by
  rw [← lookup_faces, ← lookup_faces, h.faces]

/-- Beginning a record shows the same in both states. -/
theorem opened (h : r.Alike q) (sequence : Int) (line : Nat) :
    (r.opened sequence line).Alike (q.opened sequence line) := by
  have hfaces : ∀ {s : ReaderState}, s.Registers →
      (s.opened sequence line).faces = (sequence, NodeData.pending.face) :: s.faces := by
    intro s hs
    have hnew : (s.opened sequence line).tree.face s.tree.size = NodeData.pending.face := by
      rw [ReaderState.opened, Tree.face, Tree.data_push, if_pos rfl]
    have hold := hs.faces_eq (.push s.tree ⟨line, .pending⟩) s.input
    rw [← hold, ← hnew]
    rfl
  refine ⟨h.input, h.caseRule, ?_, h.registers.mono (r.extends_opened sequence line),
    h.registers'.mono (q.extends_opened sequence line)⟩
  rw [hfaces h.registers, hfaces h.registers', h.faces]

end Alike

/-- A node that has been filled in has the face of its content. -/
theorem face_completed {id : NodeId} (h : id < s.tree.size) (d : NodeData) :
    (s.completed id d).tree.face id = d.face := by
  rw [completed, Tree.face, Tree.data_setData d h, if_pos rfl]

/-- Filling in a registered node changes its face and no other. -/
theorem faces_completed (h : s.Registers) {news olds : List (Int × NodeId)} {sequence : Int}
    {id : NodeId} (hobjects : s.objects = news ++ (sequence, id) :: olds) (d : NodeData) :
    (s.completed id d).faces = news.map (fun e => (e.1, s.tree.face e.2)) ++
      (sequence, d.face) :: olds.map (fun e => (e.1, s.tree.face e.2)) := by
  have hid : id < s.tree.size := h.lt_size id (by simp [hobjects])
  have hnodup := h.nodup
  rw [hobjects, List.map_append, List.map_cons, List.nodup_middle, List.nodup_cons,
    ← List.map_append] at hnodup
  have hother : ∀ e ∈ news ++ olds, (s.tree.setData id d).face e.2 = s.tree.face e.2 := by
    intro e he
    rw [Tree.face, Tree.data_setData d hid, if_neg, Tree.face]
    intro hid
    exact hnodup.1 (List.mem_map.mpr ⟨e, he, hid⟩)
  have hself : (s.tree.setData id d).face id = d.face := face_completed hid d
  rw [faces, completed]
  simp only [hobjects, List.map_append, List.map_cons, hself]
  congr 1
  · exact List.map_congr_left fun e he => congrArg _ (hother e (List.mem_append_left _ he))
  · exact congrArg _ <| List.map_congr_left fun e he =>
      congrArg _ (hother e (List.mem_append_right _ he))

/-- Filling in the nodes of one record shows the same in both states. -/
theorem Alike.completed {sequence : Int} {line : Nat} {d e : NodeData} (h : r.Alike q)
    (hs : (r.opened sequence line).Extends s) (hu : (q.opened sequence line).Extends u)
    (h' : s.Alike u) (hface : e.face = d.face) :
    (s.completed r.tree.size d).Alike (u.completed q.tree.size e) := by
  have hr := h.registers.mono ((r.extends_opened sequence line).completed hs d)
  have hq := h.registers'.mono ((q.extends_opened sequence line).completed hu e)
  refine ⟨h'.input, h'.caseRule, ?_, hr, hq⟩
  obtain ⟨news, hnews⟩ := hs.objects
  obtain ⟨news', hnews'⟩ := hu.objects
  replace hnews : s.objects = news ++ (sequence, r.tree.size) :: r.objects := hnews.symm
  replace hnews' : u.objects = news' ++ (sequence, q.tree.size) :: q.objects := hnews'.symm
  have hlength : q.objects.length = r.objects.length := by
    simpa [ReaderState.faces] using congrArg List.length h.faces
  have hfaces := h'.faces
  rw [ReaderState.faces, ReaderState.faces, hnews, hnews', List.map_append, List.map_append,
    List.map_cons, List.map_cons] at hfaces
  -- The tables have the same length, so the two nodes stand at the same place.
  obtain ⟨hnew, hold⟩ := List.append_inj' hfaces (by simp [hlength])
  rw [faces_completed h'.registers hnews, faces_completed h'.registers' hnews', hface, hnew,
    (List.cons.inj hold).2]

end ReaderState

/-! ## Reading into two trees -/

/-- The face of a node depends only on what its record stores in place. -/
theorem Layout.face_build {kind : Kind} {layout : Layout} (h : kind.layout? = some layout)
    {p p' : Payload layout.shapes}
    (hp : Payload.stored layout.shapes p = Payload.stored layout.shapes p') :
    (layout.build p').face = (layout.build p).face := by
  cases kind <;> cases h
  case externalDeclaration =>
    have hname := congrArg Prod.fst hp
    have hfile := congrArg (fun x => x.2.1) hp
    exact congrArg₂ (fun n f => (some n.1, some f)) hname.symm hfile.symm
  case classDeclaration | procedure | block | simpleVariable | array | parameter | label |
      hiddenSpec | protectedSpec | virtualSpec | nameUse =>
    exact congrArg (fun x => (some x.1, none)) hp.symm
  all_goals rfl

namespace Reader

variable {α β γ κ κ' κ'' : Type}

/-- The action only reads on, and what it makes of one state it makes of every other that looks
alike: the nodes in the two results have the same faces, and the results store the same in place. -/
structure Determined (v : View α κ) (m : Reader α) : Prop where
  grows : m.Grows
  determined : ∀ {r q a r'}, r.Alike q → m r = .ok a r' → ∃ b q', m q = .ok b q' ∧ r'.Alike q' ∧
    r'.tree.SameFaces (v.links a) q'.tree (v.links b) ∧ v.stored a = v.stored b

/-- No nodes have the same faces as no nodes. -/
theorem sameFaces_nil (t u : Tree) : t.SameFaces [] u [] := ⟨rfl, nofun, nofun⟩

/-- A primitive value is the same whatever the tree. -/
theorem take_determined (d : Decoder α) {r q r' : ReaderState} {a : α} (h : r.Alike q)
    (hr : take d r = .ok a r') : ∃ q', take d q = .ok a q' ∧ r'.Alike q' := by
  obtain ⟨hd, htree, hobjects⟩ := take_eq_ok hr
  rw [← h.input] at hd
  refine ⟨_, take_of_ok hd, ?_⟩
  obtain ⟨input, tree, objects⟩ := r'
  cases htree
  cases hobjects
  exact h.setInput input

namespace Determined

/-- A value without nodes may be given back. -/
theorem give {v : View α κ} {a : α} (h : v.links a = []) : (pure a : Reader α).Determined v where
  grows := pure_grows a
  determined {r q _ _} halike hr := by
    obtain ⟨rfl, rfl⟩ := pure_eq_ok.mp hr
    exact ⟨a, q, rfl, halike, h ▸ sameFaces_nil _ _, rfl⟩

/-- What follows a primitive value may depend on it. -/
theorem taken {v : View β κ} (d : Decoder α) {f : α → Reader β} (hf : ∀ a, (f a).Determined v) :
    (take d >>= f).Determined v where
  grows := (take_grows d).bind fun a => (hf a).grows
  determined halike hr := by
    obtain ⟨a, r₁, ha, hr⟩ := bind_eq_ok.mp hr
    obtain ⟨q₁, ha', h₁⟩ := take_determined d halike ha
    obtain ⟨b, q', hb, hsame⟩ := (hf a).determined h₁ hr
    exact ⟨b, q', bind_eq_ok.mpr ⟨a, q₁, ha', hb⟩, hsame⟩

/-- An object that must be there is there in both trees. -/
theorem child {x : Reader (Option NodeId)} (hx : x.Determined .link) (role : String) :
    (takeChild x role).Determined .node where
  grows := grows_frame.child (y := x) hx.grows role
  determined halike hr := by
    obtain ⟨l, r₁, hl, hr⟩ := bind_eq_ok.mp hr
    obtain ⟨k, q₁, hk, h₁, hsame, -⟩ := hx.determined halike hl
    cases l with
    | none => cases hr
    | some i =>
      obtain ⟨rfl, rfl⟩ := pure_eq_ok.mp hr
      cases k with
      | none => cases hsame.faces
      | some j => exact ⟨j, q₁, bind_eq_ok.mpr ⟨some j, q₁, hk, rfl⟩, h₁, hsame, rfl⟩

/-- Two values one after the other show what each of them does. -/
theorem both {u : View α κ} {v : View β κ'} {w : View γ κ''} {x : Reader α} {y : Reader β}
    {f : α → β → γ} {g : κ → κ' → κ''} (hx : x.Determined u) (hy : y.Determined v)
    (hlinks : ∀ a b, w.links (f a b) = u.links a ++ v.links b)
    (hstored : ∀ a b, w.stored (f a b) = g (u.stored a) (v.stored b)) :
    Determined w (do let a ← x; let b ← y; return f a b) where
  grows := hx.grows.bind fun _ => hy.grows.bind fun _ => pure_grows _
  determined halike hr := by
    obtain ⟨a, r₁, ha, hr⟩ := bind_eq_ok.mp hr
    obtain ⟨b, r₂, hb, hr⟩ := bind_eq_ok.mp hr
    obtain ⟨rfl, rfl⟩ := pure_eq_ok.mp hr
    obtain ⟨a', q₁, ha', h₁, hsame₁, hstored₁⟩ := hx.determined halike ha
    obtain ⟨b', q₂, hb', h₂, hsame₂, hstored₂⟩ := hy.determined h₁ hb
    have hr₂ := (hy.grows.of_ok hb).1.toExtends
    have hq₂ := (hy.grows.of_ok hb').1.toExtends
    refine ⟨f a' b', q₂, bind_eq_ok.mpr ⟨a', q₁, ha', bind_eq_ok.mpr ⟨b', q₂, hb', rfl⟩⟩, h₂, ?_, ?_⟩
    · rw [hlinks, hlinks]
      exact (hsame₁.mono hr₂.keeps hq₂.keeps).append hsame₂
    · rw [hstored, hstored, hstored₁, hstored₂]

/-- Nodes with the same faces can be listed in both trees. -/
theorem listed {x : Reader (List NodeId)} (hx : x.Determined .nodes) :
    (x >>= declare).Determined .declarations where
  grows := grows_frame.listed (y := x) hx.grows
  determined {r q list _} halike hr := by
    obtain ⟨ids, r₁, hids, hr⟩ := bind_eq_ok.mp hr
    obtain ⟨ids', q₁, hids', h₁, hsame, -⟩ := hx.determined halike hids
    obtain ⟨hlist, rfl⟩ := declare_eq_ok hr
    obtain ⟨list', hlist'⟩ := hsame.exists_declarationList h₁.caseRule rfl hlist
    refine ⟨list', q₁, bind_eq_ok.mpr ⟨ids', q₁, hids', declare_of_ok hlist'⟩, h₁, ?_, rfl⟩
    have hnodes : View.declarations.links list = ids := nodes_declarationList hlist
    have hnodes' : View.declarations.links list' = ids' := nodes_declarationList hlist'
    rw [hnodes, hnodes']
    exact hsame

/-- A number leads to nodes with the same face. -/
theorem known (sequence : Int) : (refer sequence).Determined .link where
  grows := grows_frame.known sequence
  determined {r q l _} halike hr := by
    obtain ⟨id, hid, rfl, rfl⟩ := refer_eq_ok hr
    have hlookup := halike.lookup_eq sequence
    rw [hid] at hlookup
    obtain ⟨id', hid', hface⟩ := Option.map_eq_some_iff.mp hlookup
    refine ⟨some id', q, refer_of_known hid', halike, ?_, rfl⟩
    have hmem := List.mem_map_of_mem (f := (·.2)) (mem_of_lookup hid)
    have hmem' := List.mem_map_of_mem (f := (·.2)) (mem_of_lookup hid')
    exact ⟨congrArg (fun f => [f]) hface.symm,
      List.forall_mem_singleton.mpr (halike.registers.lt_size _ hmem),
      List.forall_mem_singleton.mpr (halike.registers'.lt_size _ hmem')⟩

/-- A record opens, and fills in, nodes with the same face. -/
theorem record {readLink : Reader (Option NodeId)} {kind : Kind} {layout : Layout}
    (hlayout : kind.layout? = some layout)
    (hfields : (takePayload readLink layout.shapes).Determined (.fields layout.shapes))
    (sequence : Int) (line : Nat) : (takeRecord readLink layout sequence line).Determined .link where
  grows := takeRecord_grows hlayout hfields.grows sequence line
  determined {r q l _} halike hr := by
    obtain ⟨id, r₁, hregister, hr⟩ := bind_eq_ok.mp hr
    obtain ⟨p, r₂, hp, hr⟩ := bind_eq_ok.mp hr
    obtain ⟨_, r₃, hcomplete, hr⟩ := bind_eq_ok.mp hr
    obtain ⟨hfree, rfl, rfl⟩ := register_eq_ok hregister
    cases hcomplete
    obtain ⟨rfl, rfl⟩ := pure_eq_ok.mp hr
    have hfree' : q.objects.lookup sequence = none := by
      have hlookup := halike.lookup_eq sequence
      rw [hfree] at hlookup
      exact Option.map_eq_none_iff.mp hlookup
    obtain ⟨p', q₂, hp', h₂, -, hstored⟩ :=
      hfields.determined (halike.opened sequence line) hp
    have hface := Layout.face_build hlayout hstored
    have hr₂ := (hfields.grows.of_ok hp).1
    have hq₂ := (hfields.grows.of_ok hp').1
    have hlt : ∀ {s s₁ : ReaderState}, (s.opened sequence line).Extends s₁ →
        s.tree.size < s₁.tree.size := fun hs =>
      Nat.lt_of_lt_of_le (Nat.lt_of_lt_of_eq (Nat.lt_succ_self _) (Tree.size_push ..).symm)
        hs.size_le
    refine ⟨some q.tree.size, q₂.completed q.tree.size (layout.build p'), ?_,
      halike.completed hr₂ hq₂ h₂ hface, ⟨congrArg (fun f => [f]) ?_, ?_, ?_⟩, rfl⟩
    · exact bind_eq_ok.mpr ⟨_, _, register_of_fresh line hfree', bind_eq_ok.mpr ⟨p', q₂, hp', rfl⟩⟩
    · calc (r₂.completed r.tree.size (layout.build p)).tree.face r.tree.size
          = (layout.build p).face := ReaderState.face_completed (hlt hr₂) _
        _ = (layout.build p').face := hface.symm
        _ = (q₂.completed q.tree.size (layout.build p')).tree.face q.tree.size :=
            (ReaderState.face_completed (hlt hq₂) _).symm
    · exact List.forall_mem_singleton.mpr
        (Nat.lt_of_lt_of_eq (hlt hr₂) (ReaderState.size_completed ..).symm)
    · exact List.forall_mem_singleton.mpr
        (Nat.lt_of_lt_of_eq (hlt hq₂) (ReaderState.size_completed ..).symm)

end Determined

/-- Every step of reading an object sees only what looks alike. -/
theorem determined_frame : ObjectFrame fun v x _ => x.Determined v where
  give h := .give h
  taken _ hf := .taken _ hf
  child hx := hx.child
  both hx hy hlinks hstored := hx.both hy hlinks hstored
  listed hx := hx.listed
  ended := ⟨throw_grows _, fun _ hr => nomatch hr⟩
  known := .known
  record hlayout hfields := .record hlayout hfields

/-- An object that can be read into one tree can be read into any other, with the same face. -/
theorem tagged_determined {kind : Kind} {r q r' : ReaderState} {l : Option NodeId} (h : r.Alike q)
    (hr : tagged kind r = .ok l r') : ∃ k q', tagged kind q = .ok k q' ∧ r'.Alike q' ∧
      r'.tree.SameFaces l.toList q'.tree k.toList := by
  have hframe := determined_frame.takeTagged (y := objectWithin r.input.length)
    (determined_frame.objectWithin r.input.length) kind
  obtain ⟨k, q', hk, h', hsame, -⟩ := hframe.determined h hr
  rw [← h.input] at hk
  exact ⟨k, q', hk, h', hsame⟩

end Reader

end Simula
