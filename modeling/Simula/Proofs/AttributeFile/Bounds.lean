import Simula.Proofs.AttributeFile.Parts
import Simula.Proofs.ObjectStream.Containment

/-!
# How far a file is read

The edges of a file, its external declarations and the records that are open at a time are counted
while it is read, and the length of the input bounds each of these counts. Each of them takes up
input, so a bound is never what ends them: at the bound there is no input left, and the next value
cannot be read.
-/

namespace Simula

/-! ## Open records -/

/-- At most `n` bytes are left. -/
def ReaderState.Within (n : Nat) (s : ReaderState) : Prop := s.input.length ≤ n

namespace Reader

variable {α : Type} {n : Nat}

/-- What is paid for with bytes leaves no more of them. -/
theorem within_of_pays {debt : Nat} {x : Reader α} (hx : Follows (ReaderState.Pays debt) x)
    {s s' : ReaderState} {a : α} (hs : s.Within n) (h : x s = .ok a s') : s'.Within n :=
  Nat.le_trans (hx.of_ok h).input.length_le hs

/-- The two actions do the same while at most `n` bytes are left, and leave no more than that. -/
structure Agree (n : Nat) (x y : Reader α) : Prop where
  same : SameOn (ReaderState.Within n) x y
  within : ∀ {s s' a}, s.Within n → x s = .ok a s' → s'.Within n

namespace Agree

/-- An action that takes bytes off the input agrees with itself. -/
theorem refl {x : Reader α} (hx : Follows (ReaderState.Pays 0) x) : Agree n x x :=
  ⟨.refl x, within_of_pays hx⟩

/-- Actions one after the other agree if each do. -/
theorem bind {β : Type} {x y : Reader α} {f g : α → Reader β} (h : Agree n x y)
    (hf : ∀ a, Agree n (f a) (g a)) : Agree n (x >>= f) (y >>= g) where
  same := h.same.bind h.within fun a => (hf a).same
  within hs hx := by
    obtain ⟨a, s₁, ha, hb⟩ := bind_eq_ok.mp hx
    exact (hf a).within (h.within hs ha) hb

end Agree

/-- Every step of reading an object is the same if the objects in it are. -/
theorem agree_frame (n : Nat) : ObjectFrame fun _ x y => Agree n x y where
  toFieldFrame := .of_bind (fun a => .refl (.pure a)) .bind (fun hd => .refl (take_pays hd.consumes))
    (fun _ => .refl (.throw _)) fun ids => ⟨.refl _, fun hs h => (declare_eq_ok h).2 ▸ hs⟩
  ended := .refl (.throw _)
  known _ := ⟨.refl _, fun hs h => by
    obtain ⟨_, -, -, rfl⟩ := refer_eq_ok h
    exact hs⟩
  record _ hfields sequence line := by
    have hregister : Agree n (register sequence line) (register sequence line) :=
      ⟨.refl _, fun hs h => by
        obtain ⟨-, -, rfl⟩ := register_eq_ok h
        exact hs⟩
    exact hregister.bind fun id => hfields.bind fun p => ⟨.refl _, fun hs h => by
      cases h
      exact hs⟩

/-- A tag that has been read leaves one byte less. -/
theorem within_of_kind {s s' : ReaderState} {k : Kind} (hs : s.Within (n + 1))
    (h : take Decoder.kind s = .ok k s') : s'.Within n := by
  have hlength := Decoder.length_of_kind (take_eq_ok h).1
  rw [ReaderState.Within] at hs ⊢
  omega

/-- One more open record makes no difference when there are as many bytes left. -/
theorem objectWithin_succ (n : Nat) :
    SameOn (ReaderState.Within n) (objectWithin n) (objectWithin (n + 1)) := by
  induction n with
  | zero =>
    rintro ⟨input, tree, objects⟩ hs
    obtain rfl := List.eq_nil_of_length_eq_zero (Nat.le_zero.mp hs)
    rfl
  | succ n ih =>
    have hagree : Agree n (objectWithin n) (objectWithin (n + 1)) :=
      ⟨ih, within_of_pays (objectWithin_pays n)⟩
    exact (SameOn.refl _).bind within_of_kind fun kind =>
      ((agree_frame n).takeTagged hagree kind).same

end Reader

namespace AttributeFile

/-! ## Edges and external declarations -/

/-- At most `n` bytes are left. -/
def FileState.Within (n : Nat) (s : FileState) : Prop := s.input.length ≤ n

section

variable {α : Type} {n : Nat} {s s' : FileState}

/-- Reading from the object stream leaves no more bytes than there were. -/
theorem within_of_stream {debt : Nat} {x : Reader α} {a : α}
    (hx : Follows (ReaderState.Pays debt) x) (hs : s.Within n) (h : stream x s = .ok a s') :
    s'.Within n := by
  obtain ⟨r, hr, rfl⟩ := stream_eq_ok.mp h
  exact Reader.within_of_pays hx (s := s.objectStream) hs hr

/-- A text of the header leaves some bytes less. -/
theorem within_of_headerString {text : String} (hs : s.Within (n + 1))
    (h : headerString s = .ok text s') : s'.Within n := by
  obtain ⟨found, s₁, htake, h⟩ := bind_eq_ok.mp h
  obtain ⟨r, hr, rfl⟩ := stream_eq_ok.mp htake
  have hlength := Decoder.length_of_string (Reader.take_eq_ok hr).1
  cases found with
  | none => cases h
  | some found =>
    obtain ⟨-, rfl⟩ := pure_eq_ok.mp h
    change r.input.length + 2 ≤ s.input.length at hlength
    rw [FileState.Within] at hs ⊢
    change r.input.length ≤ n
    omega

/-- A kind leaves one byte less. -/
theorem within_of_kind {k : Kind} (hs : s.Within (n + 1)) (h : take Decoder.kind s = .ok k s') :
    s'.Within n := by
  obtain ⟨r, hr, rfl⟩ := stream_eq_ok.mp h
  exact Reader.within_of_kind (s := s.objectStream) hs hr

end

/-- With as many steps as bytes, a step more makes no difference to the edges. -/
theorem readEdges_succ (n : Nat) :
    SameOn (FileState.Within n) (readEdges n) (readEdges (n + 1)) := by
  induction n with
  | zero =>
    rintro ⟨input, objects, loading⟩ hs
    obtain rfl := List.eq_nil_of_length_eq_zero (Nat.le_zero.mp hs)
    rfl
  | succ n ih =>
    have hstring : ∀ {s text s'}, s.Within n → headerString s = .ok text s' → s'.Within n :=
      fun hs h => within_of_headerString (Nat.le_succ_of_le hs) h
    refine (SameOn.refl _).bind within_of_headerString fun subPackage => ?_
    split
    · exact .refl _
    · exact (SameOn.refl _).bind hstring fun _ => (SameOn.refl _).bind hstring fun _ =>
        (SameOn.refl _).bind hstring fun _ =>
          (SameOn.refl _).bind (fun {s _ _} hs h => by cases h; exact hs) fun _ => ih

/-- Nor does it to the external declarations. -/
theorem readExternals_succ (load : NodeId → Loading NodeId) (n : Nat) :
    SameOn (FileState.Within n) (readExternals load n) (readExternals load (n + 1)) := by
  induction n with
  | zero =>
    rintro ⟨input, objects, loading⟩ hs
    obtain rfl := List.eq_nil_of_length_eq_zero (Nat.le_zero.mp hs)
    rfl
  | succ n ih =>
    refine (SameOn.refl _).bind within_of_kind fun kind => ?_
    split
    · exact .refl _
    · refine (SameOn.refl _).bind (within_of_stream (Reader.tagged_pays kind)) fun l => ?_
      cases l with
      | none => exact .refl _
      | some external =>
        refine (SameOn.refl _).bind (T := FileState.Within n) ?_ fun module =>
          (SameOn.refl _).bind (T := FileState.Within n) (fun {s _ _} hs h => by cases h; exact hs)
            fun _ => ih.bind (fun _ _ => trivial) fun _ => .refl _
        intro s module s' hs h
        obtain ⟨loading, -, rfl⟩ := meanwhile_eq_ok.mp h
        exact hs

/-- The bounds on what is read of a file are never reached: with larger ones it is read in the same
way. -/
structure FileState.EndsByItself (s : FileState) : Prop where
  edges : ∀ n, s.input.length ≤ n → readEdges n s = readEdges s.input.length s
  externals : ∀ load n, s.input.length ≤ n →
    readExternals load n s = readExternals load s.input.length s
  object : ∀ depth, s.input.length ≤ depth →
    Reader.objectWithin depth s.objectStream = Reader.object s.objectStream

/-- Every edge, every external declaration and every open record has taken some of the input, so
there are never more of them than bytes. -/
theorem endsByItself (s : FileState) : s.EndsByItself where
  edges _ hs := SameOn.eq_of_size_le readEdges_succ hs
  externals load _ hs := SameOn.eq_of_size_le (readExternals_succ load) hs
  object _ hs := SameOn.eq_of_size_le Reader.objectWithin_succ hs

end AttributeFile

end Simula
