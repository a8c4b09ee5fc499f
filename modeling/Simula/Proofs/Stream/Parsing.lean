import Simula.ObjectStream.Shape
import Simula.Proofs.Stream.Numbers

/-!
# Parsing

An action parses if the bytes that it takes decide by themselves what it makes of them. Whatever
follows these bytes is left alone and makes no difference, and when they are cut short the end of
the input is what it complains about, before anything else can go wrong. When it fails otherwise,
the fault lies in the file, which then has to be made again.

This is kept when actions follow each other, so it is shown once for taking some bytes and then
holds of every decoder, of the reader of object streams and of the header of an attribute file.
-/

namespace Simula

/-- A state that holds what is left of an input. -/
class HasInput (σ : Type) where
  input : σ → Bytes
  /-- The state with another input. -/
  setInput : Bytes → σ → σ
  input_setInput : ∀ bytes s, input (setInput bytes s) = bytes
  setInput_input : ∀ s, setInput (input s) s = s

open HasInput

instance : HasInput Bytes where
  input s := s
  setInput bytes _ := bytes
  input_setInput _ _ := rfl
  setInput_input _ := rfl

section

variable {σ α β : Type} [HasInput σ] {faults : Error → Prop}

/-- The action makes the same of the bytes that it takes whatever follows them, notices when they
are cut short, and fails only in the given ways. -/
structure Parses (faults : Error → Prop) (x : EStateM Error σ α) : Prop where
  takes : ∀ {s a s'}, x s = .ok a s' → ∃ taken, input s = taken ++ input s' ∧
    (∀ rest, x (setInput (taken ++ rest) s) = .ok a (setInput rest s')) ∧
    ∀ cut, cut <+: taken → cut ≠ taken →
      ∃ s₁, x (setInput cut s) = .error (.format .endOfInput) s₁
  leaves : ∀ s, input (leaves x s) <:+ input s
  fails : ∀ {s e s'}, x s = .error e s' → faults e

/-- An outcome with another input left over. -/
def withInput (bytes : Bytes) : EStateM.Result Error σ α → EStateM.Result Error σ α
  | .ok a s => .ok a (setInput bytes s)
  | .error e s => .error e (setInput bytes s)

/-- The action does not look at the input. -/
def Blind (x : EStateM Error σ α) : Prop := ∀ bytes s, x (setInput bytes s) = withInput bytes (x s)

namespace Parses

/-- An action that does not look at the input takes nothing of it. -/
theorem of_blind {x : EStateM Error σ α} (h : Blind x)
    (hfails : ∀ {s e s'}, x s = .error e s' → faults e) : Parses faults x where
  takes {s a s'} hx := by
    have hany : ∀ bytes, x (setInput bytes s) = .ok a (setInput bytes s') := fun bytes => by
      rw [h, hx, withInput]
    have hstill : setInput (input s) s' = s' := by
      have hsame := hany (input s)
      rw [setInput_input, hx] at hsame
      exact (EStateM.Result.ok.inj hsame).2.symm
    refine ⟨[], ?_, hany, fun cut hpart hne => absurd (List.prefix_nil.mp hpart) hne⟩
    rw [List.nil_append, ← hstill, input_setInput]
  leaves s := by
    have hstill : x s = withInput (input s) (x s) := by rw [← h, setInput_input]
    have hleft : input (Simula.leaves x s) = input s := by
      cases hx : x s with
      | ok a s' =>
        rw [hx, withInput] at hstill
        rw [leaves_of_ok hx, (EStateM.Result.ok.inj hstill).2, input_setInput]
      | error e s' =>
        rw [hx, withInput] at hstill
        rw [leaves_of_error hx, (EStateM.Result.error.inj hstill).2, input_setInput]
    exact hleft ▸ List.suffix_refl _
  fails := hfails

/-- An action that fails in fewer ways. -/
theorem mono {faults' : Error → Prop} {x : EStateM Error σ α} (hx : Parses faults x)
    (h : ∀ {e}, faults e → faults' e) : Parses faults' x where
  takes := hx.takes
  leaves := hx.leaves
  fails hs := h (hx.fails hs)

/-- Taking nothing parses. -/
theorem pure (a : α) : Parses faults (Pure.pure a : EStateM Error σ α) :=
  of_blind (fun _ _ => rfl) nofun

/-- Failing in one of the given ways parses. -/
theorem throw {e : Error} (he : faults e) :
    Parses faults (MonadExcept.throw e : EStateM Error σ α) :=
  of_blind (fun _ _ => rfl) fun h => by cases h; exact he

/-- Actions one after the other parse if each does. -/
theorem bind {x : EStateM Error σ α} {f : α → EStateM Error σ β} (hx : Parses faults x)
    (hf : ∀ a, Parses faults (f a)) : Parses faults (x >>= f) where
  takes {s b s'} h := by
    obtain ⟨a, s₁, ha, hb⟩ := bind_eq_ok.mp h
    obtain ⟨taken, hinput, hsame, hcut⟩ := hx.takes ha
    obtain ⟨taken', hinput', hsame', hcut'⟩ := (hf a).takes hb
    refine ⟨taken ++ taken', ?_, fun rest => ?_, fun cut hpart hne => ?_⟩
    · rw [hinput, hinput', List.append_assoc]
    · rw [List.append_assoc, bind_of_ok (hsame _), hsame']
    · by_cases hshort : cut <+: taken ∧ cut ≠ taken
      · obtain ⟨s₂, hs₂⟩ := hcut cut hshort.1 hshort.2
        exact ⟨s₂, bind_of_error hs₂⟩
      · -- The first part is complete, so the cut is in the second.
        obtain ⟨cut', rfl⟩ : taken <+: cut := by
          rcases List.prefix_or_prefix_of_prefix hpart (List.prefix_append taken taken') with
            hle | hle
          · exact Decidable.not_not.mp (fun hne => hshort ⟨hle, hne⟩) ▸ List.prefix_refl _
          · exact hle
        obtain ⟨s₂, hs₂⟩ := hcut' cut' ((List.prefix_append_right_inj taken).mp hpart)
          fun heq => hne (by rw [heq])
        exact ⟨s₂, (bind_of_ok (hsame cut')).trans hs₂⟩
  leaves s := by
    cases ha : x s with
    | error e s₁ =>
      rw [leaves_of_error (bind_of_error ha), ← leaves_of_error ha]
      exact hx.leaves s
    | ok a s₁ =>
      have hfirst := hx.leaves s
      rw [leaves_of_ok ha] at hfirst
      rw [leaves_bind_of_ok ha]
      exact ((hf a).leaves s₁).trans hfirst
  fails {s e s'} h := by
    cases ha : x s with
    | error e' s₁ =>
      rw [bind_of_error ha] at h
      cases h
      exact hx.fails ha
    | ok a s₁ =>
      rw [bind_of_ok ha] at h
      exact (hf a).fails h

/-- A value that is worked out from what has been read. -/
theorem map {x : EStateM Error σ α} (hx : Parses faults x) (f : α → β) :
    Parses faults (x >>= fun a => Pure.pure (f a)) :=
  hx.bind fun a => .pure (f a)

/-- What is done next may depend on the state, as long as it does not depend on the input. -/
theorem of_get {f : σ → EStateM Error σ α} (hblind : ∀ bytes s, f (setInput bytes s) = f s)
    (hf : ∀ s, Parses faults (f s)) : Parses faults (get >>= f) where
  takes {s a s'} h := by
    obtain ⟨taken, hinput, hsame, hcut⟩ := (hf s).takes (show f s s = .ok a s' from h)
    have hany : ∀ bytes, (get >>= f) (setInput bytes s) = f s (setInput bytes s) := fun bytes =>
      congrFun (hblind bytes s) _
    exact ⟨taken, hinput, fun rest => (hany _).trans (hsame rest), fun cut hpart hne =>
      (hcut cut hpart hne).imp fun _ hs₁ => (hany _).trans hs₁⟩
  leaves s := (hf s).leaves s
  fails {s e s'} h := (hf s).fails (show f s s = .error e s' from h)

/-- An action whose bound on the steps grows with the input parses if it does so with every bound,
and the bound makes no difference from the length of the input on. -/
theorem of_bounded {x : EStateM Error σ α} {bounded : Nat → EStateM Error σ α}
    (h : ∀ n, Parses faults (bounded n))
    (hx : ∀ n s, (input s).length ≤ n → x s = bounded n s) : Parses faults x where
  takes {s a s'} hs := by
    have hbounded : ∀ n, (input s).length ≤ n → bounded n s = .ok a s' := fun n hn =>
      (hx n s hn).symm.trans hs
    obtain ⟨taken, hinput, -, -⟩ := (h _).takes (hbounded _ (Nat.le_refl _))
    -- A bound that suffices for two inputs takes the same bytes as any other that suffices for one.
    have hany : ∀ bytes : Bytes, ∃ n, bytes.length ≤ n ∧
        (∀ rest, bounded n (setInput (taken ++ rest) s) = .ok a (setInput rest s')) ∧
        ∀ cut, cut <+: taken → cut ≠ taken →
          ∃ s₁, bounded n (setInput cut s) = .error (.format .endOfInput) s₁ := by
      intro bytes
      obtain ⟨taken', hinput', hsame, hcut⟩ :=
        (h _).takes (hbounded (max (input s).length bytes.length) (Nat.le_max_left ..))
      obtain rfl := List.append_cancel_right (hinput.symm.trans hinput')
      exact ⟨_, Nat.le_max_right .., hsame, hcut⟩
    refine ⟨taken, hinput, fun rest => ?_, fun cut hpart hne => ?_⟩
    · obtain ⟨n, hn, hsame, -⟩ := hany (taken ++ rest)
      rw [hx n _ (by rwa [input_setInput]), hsame]
    · obtain ⟨n, hn, -, hcut⟩ := hany cut
      rw [hx n _ (by rwa [input_setInput])]
      exact hcut cut hpart hne
  leaves s := by
    have hleft := (h (input s).length).leaves s
    rwa [Simula.leaves, ← hx _ s (Nat.le_refl _)] at hleft
  fails {s e s'} hs := (h _).fails ((hx _ s (Nat.le_refl _)).symm.trans hs)

/-- An action on a part of the state that holds the input parses if it does so on that part. -/
theorem lift {τ : Type} [HasInput τ] {x : EStateM Error σ α} {y : EStateM Error τ α}
    (hx : Parses faults x) (view : τ → σ) (put : σ → τ → τ)
    (hok : ∀ {s a v}, x (view s) = .ok a v → y s = .ok a (put v s))
    (herror : ∀ {s e v}, x (view s) = .error e v → y s = .error e (put v s))
    (hinput : ∀ s, input (view s) = input s) (hinput' : ∀ v s, input (put v s) = input v)
    (hview : ∀ bytes s, view (setInput bytes s) = setInput bytes (view s))
    (hput : ∀ bytes bytes' v s,
      put (setInput bytes v) (setInput bytes' s) = setInput bytes (put v s)) : Parses faults y where
  takes {s a s'} h := by
    cases hv : x (view s) with
    | error e v =>
      rw [herror hv] at h
      cases h
    | ok b v =>
      rw [hok hv] at h
      cases h
      obtain ⟨taken, htaken, hsame, hcut⟩ := hx.takes hv
      refine ⟨taken, ?_, fun rest => ?_, fun cut hpart hne => ?_⟩
      · rw [hinput', ← hinput, htaken]
      · rw [hok (v := setInput rest v) (by rw [hview, hsame]), hput]
      · obtain ⟨v₁, hv₁⟩ := hcut cut hpart hne
        exact ⟨_, herror (v := v₁) (by rw [hview, hv₁])⟩
  leaves s := by
    have hleft := hx.leaves (view s)
    rw [hinput] at hleft
    cases hv : x (view s) with
    | ok a v =>
      rw [leaves_of_ok hv] at hleft
      rwa [leaves_of_ok (hok hv), hinput']
    | error e v =>
      rw [leaves_of_error hv] at hleft
      rwa [leaves_of_error (herror hv), hinput']
  fails {s e s'} h := by
    cases hv : x (view s) with
    | ok a v =>
      rw [hok hv] at h
      cases h
    | error e' v =>
      rw [herror hv] at h
      cases h
      exact hx.fails hv

/-- What has been parsed, by the number of its bytes. -/
theorem exists_count {x : EStateM Error σ α} (hx : Parses faults x) {s s' : σ} {a : α}
    (h : x s = .ok a s') : ∃ n, n ≤ (input s).length ∧ input s' = (input s).drop n ∧
      (∀ bytes, (input s).take n <+: bytes →
        x (setInput bytes s) = .ok a (setInput (bytes.drop n) s')) ∧
      ∀ m < n, ∃ s₁, x (setInput ((input s).take m) s) = .error (.format .endOfInput) s₁ := by
  obtain ⟨taken, hinput, hsame, hcut⟩ := hx.takes h
  have htake : (input s).take taken.length = taken := by rw [hinput, List.take_left]
  refine ⟨taken.length, ?_, ?_, fun bytes hbytes => ?_, fun m hm => ?_⟩
  · rw [hinput, List.length_append]
    exact Nat.le_add_right ..
  · rw [hinput, List.drop_left]
  · rw [htake] at hbytes
    obtain ⟨rest, rfl⟩ := hbytes
    rw [List.drop_left, hsame]
  · have hlength : ((input s).take m).length = m := by
      rw [List.length_take, hinput, List.length_append]
      omega
    refine hcut _ ?_ fun heq => ?_
    · rw [← htake]
      exact List.take_prefix_take_left (Nat.le_of_lt hm)
    · rw [heq] at hlength
      omega

end Parses

end

/-! ## Decoders -/

/-- The file behind the error is unusable and has to be made again. -/
abbrev FileFault (e : Error) : Prop := e.requiresRecompile = true

/-- Files are at fault in four classes of errors. -/
theorem FileFault.classes {e : Error} (h : FileFault e) :
    (∃ f, e = .protocol f) ∨ (∃ f, e = .format f) ∨ (∃ n, e = .linkage n) ∨
      ∃ f, e = .unsupportedConstant f := by
  cases e with
  | protocol f => exact .inl ⟨f, rfl⟩
  | format f => exact .inr (.inl ⟨f, rfl⟩)
  | linkage n => exact .inr (.inr (.inl ⟨n, rfl⟩))
  | unsupportedConstant f => exact .inr (.inr (.inr ⟨f, rfl⟩))
  | _ => cases h

namespace Decoder

/-- Taking a number of bytes parses. -/
theorem take_parses (n : Nat) : Parses FileFault (take n) where
  takes {input taken rest} h := by
    obtain ⟨hinput, rfl⟩ := take_eq_ok h
    refine ⟨taken, hinput, fun rest' => take_reads taken rest', fun cut hpart hne => ?_⟩
    have hlt : cut.length < taken.length := by
      refine Nat.lt_of_le_of_ne hpart.length_le fun heq => hne (hpart.eq_of_length heq)
    refine ⟨_, if_neg ?_⟩
    change ¬ (cut.take taken.length).length = taken.length
    rw [List.length_take]
    omega
  leaves input := by
    have hdrop : Simula.leaves (take n) input = input.drop n := by
      by_cases h : (input.take n).length = n
      · exact leaves_of_ok (if_pos h)
      · exact leaves_of_error (if_neg h)
    rw [hdrop]
    exact List.drop_suffix n input
  fails {input e rest} h := by
    rw [take] at h
    split at h
    · cases h
    · cases h
      rfl

/-- Taking a byte is taking one byte. -/
theorem byte_eq : byte = (do
    match ← take 1 with
    | b :: _ => return b
    | [] => throw (.format .endOfInput)) := by
  funext input
  cases input <;> rfl

/-- Reading a byte parses. -/
theorem byte_parses : Parses FileFault byte := by
  rw [byte_eq]
  refine (take_parses 1).bind fun bytes => ?_
  cases bytes with
  | nil => exact .throw rfl
  | cons b rest => exact .pure b

/-- Reading a number of some width parses. -/
theorem nat_parses (width : Nat) : Parses FileFault (nat width) := (take_parses width).map _

/-- Reading a short number parses. -/
theorem short_parses : Parses FileFault short := (nat_parses 2).map _

/-- Reading a count parses: a negative one is a fault of the file. -/
theorem count_parses : Parses FileFault count := by
  refine short_parses.bind fun n => ?_
  split
  · exact .pure _
  · exact .throw rfl

/-- Reading a flag parses. -/
theorem flag_parses : Parses FileFault flag := by
  refine byte_parses.bind fun b => ?_
  split
  · exact .pure _
  · split
    · exact .pure _
    · exact .throw rfl

/-- The length of a text is followed by its units. -/
theorem stringBehind_parses (n : Int) :
    Parses FileFault (show Decoder (Option String) from do
      if n = 0 then return none
      if n < 0 then throw (.protocol (.lengthPrefix n))
      let bytes ← take (2 * (n.toNat - 1))
      match Text.ofUnits? (units bytes) with
      | some s => return some (String.ofList s)
      | none => throw (.protocol .brokenText)) := by
  have htext : Parses FileFault (do
      let bytes ← take (2 * (n.toNat - 1))
      match Text.ofUnits? (units bytes) with
      | some s => return some (String.ofList s)
      | none => throw (.protocol .brokenText)) := by
    refine (take_parses _).bind fun bytes => ?_
    split
    · exact .pure _
    · exact .throw rfl
  split
  · exact .pure _
  · split
    · exact .bind (.throw rfl) fun _ => htext
    · exact htext

/-- Reading a text parses. -/
theorem string_parses : Parses FileFault string := short_parses.bind stringBehind_parses

/-- Reading a kind parses: an unknown tag is a fault of the file. -/
theorem kind_parses : Parses FileFault kind := by
  refine byte_parses.bind fun b => ?_
  split
  · exact .pure _
  · exact .throw rfl

/-- Reading the tag of a type parses. -/
theorem typeTag_parses : Parses FileFault typeTag := by
  refine byte_parses.bind fun b => ?_
  split
  · exact .pure _
  · exact .throw rfl

/-- Reading a type parses, a qualification included. -/
theorem type_parses : Parses FileFault type := by
  refine typeTag_parses.bind fun tag => ?_
  cases tag with
  | ref => exact string_parses.map _
  | _ => exact .pure _

/-- Reading a character parses. -/
theorem character_parses : Parses FileFault character := by
  refine (nat_parses 2).bind fun n => ?_
  split
  · exact .pure _
  · exact .throw rfl

/-- Reading a constant parses, whatever its type. -/
theorem constant_parses : Parses FileFault constant := by
  refine typeTag_parses.bind fun tag => ?_
  cases tag with
  | undefined => exact .pure _
  | boolean => exact flag_parses.map _
  | character => exact character_parses.map _
  | integer => exact short_parses.map _
  | real => exact (nat_parses 4).map _
  | longReal => exact (nat_parses 8).map _
  | text => exact string_parses.map _
  | ref | procedure | label => exact .throw rfl

/-- Reading a value by its code parses. -/
theorem coded_parses (α : Type) [DecidableEq α] [Coded α] (what : String) :
    Parses FileFault (coded α what) := by
  refine byte_parses.bind fun b => ?_
  split
  · exact .pure _
  · exact .throw rfl

end Decoder

namespace Scalar

/-- Reading an identifier parses: an absent one is a fault of the file. -/
theorem takeIdentifier_parses : Parses FileFault takeIdentifier := by
  refine Decoder.string_parses.bind fun s => ?_
  cases s with
  | none => exact .throw rfl
  | some s => exact .pure s

/-- Reading identifiers one after the other parses. -/
theorem takeIdentifiers_parses (n : Nat) : Parses FileFault (takeIdentifiers n) := by
  induction n with
  | zero => exact .pure _
  | succ n ih => exact takeIdentifier_parses.bind fun _ => ih.map _

/-- Reading the name of a module parses. -/
theorem takeModuleName_parses : Parses FileFault takeModuleName := by
  refine takeIdentifier_parses.bind fun i => Decoder.kind_parses.bind fun k => ?_
  split
  · exact .pure _
  · exact .throw rfl

/-- Every field that is stored in place is parsed. -/
theorem take_parses (s : Scalar) : Parses FileFault s.take := by
  cases s with
  | identifier => exact takeIdentifier_parses
  | name => exact Decoder.string_parses
  | identifiers => exact Decoder.count_parses.bind fun n => takeIdentifiers_parses n
  | moduleName => exact takeModuleName_parses
  | byte => exact Decoder.byte_parses
  | count => exact Decoder.count_parses
  | flag => exact Decoder.flag_parses
  | type => exact Decoder.type_parses
  | constant => exact Decoder.constant_parses
  | _ => exact Decoder.coded_parses _ _

end Scalar

end Simula
