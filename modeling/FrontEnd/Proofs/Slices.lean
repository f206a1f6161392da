import Mathlib.Data.List.TakeWhile
import FrontEnd.Text.Slice

namespace FrontEnd.Text

def utf8 (cs : List Char) : List UInt8 := cs.flatMap String.utf8EncodeChar

@[simp] theorem utf8_nil : utf8 [] = [] := rfl

theorem utf8_cons (c : Char) (cs : List Char) :
    utf8 (c :: cs) = String.utf8EncodeChar c ++ utf8 cs := rfl

@[simp] theorem utf8_append (cs ds : List Char) : utf8 (cs ++ ds) = utf8 cs ++ utf8 ds :=
  List.flatMap_append

theorem bytes_ofList (cs : List Char) : bytes (String.ofList cs) = utf8 cs := by
  rw [bytes, String.toByteArray_ofList, List.utf8Encode, List.data_toByteArray, utf8]

theorem bytes_eq (s : String) : bytes s = utf8 s.toList := by
  rw [← bytes_ofList, String.ofList_toList]

theorem length_bytes (s : String) : (bytes s).length = s.utf8ByteSize := by
  rw [← String.size_toByteArray]
  rfl

def IsAscii (p : Char → Bool) : Prop := ∀ c, p c = true → c.toNat < 128

theorem IsAscii.ofUInt8_eq_false {p : Char → Bool} (hp : IsAscii p) {b : UInt8}
    (hb : 128 ≤ b.toNat) : p (Char.ofUInt8 b) = false := by
  refine Bool.eq_false_iff.mpr fun h => ?_
  exact absurd (hp (Char.ofUInt8 b) h) (Nat.not_lt_of_le hb)

theorem utf8EncodeChar_narrow {c : Char} (h : c.toNat < 128) :
    ∃ b : UInt8, String.utf8EncodeChar c = [b] ∧ Char.ofUInt8 b = c := by
  have hval : c.val.toNat ≤ 127 := Nat.le_of_lt_succ h
  refine ⟨UInt8.ofNat c.val.toNat, if_pos hval, ?_⟩
  apply Char.ext
  apply UInt32.toNat_inj.mp
  change c.val.toNat % 256 = c.val.toNat
  omega

theorem utf8EncodeChar_above {c : Char} (h : 128 ≤ c.toNat) :
    ∀ b ∈ String.utf8EncodeChar c, 128 ≤ b.toNat := by
  have hval : ¬ c.val.toNat ≤ 127 := Nat.not_le_of_lt h
  have hbyte : ∀ n, 128 ≤ n → n < 256 → 128 ≤ (UInt8.ofNat n).toNat := fun n hlow hhigh =>
    (UInt8.toNat_ofNat_of_lt' hhigh).symm ▸ hlow
  intro b hb
  unfold String.utf8EncodeChar at hb
  rw [if_neg hval] at hb
  -- Characters of two, three and four bytes.
  split at hb
  · simp only [List.mem_cons, List.not_mem_nil, or_false] at hb
    rcases hb with rfl | rfl <;> exact hbyte _ (by omega) (by omega)
  split at hb
  · simp only [List.mem_cons, List.not_mem_nil, or_false] at hb
    rcases hb with rfl | rfl | rfl <;> exact hbyte _ (by omega) (by omega)
  · simp only [List.mem_cons, List.not_mem_nil, or_false] at hb
    rcases hb with rfl | rfl | rfl | rfl <;> exact hbyte _ (by omega) (by omega)

theorem utf8EncodeChar_eq_cons (c : Char) : ∃ b bs, String.utf8EncodeChar c = b :: bs ∧
    b.IsUTF8FirstByte ∧ ∀ d ∈ bs, 128 ≤ d.toNat ∧ ¬ d.IsUTF8FirstByte := by
  cases hbytes : String.utf8EncodeChar c with
  | nil => simp at hbytes
  | cons b bs =>
    have hfirst : ∀ i (hi : i < (b :: bs).length), (b :: bs)[i].IsUTF8FirstByte ↔ i = 0 := by
      rw [← hbytes]
      exact fun i hi => UInt8.isUTF8FirstByte_getElem_utf8EncodeChar
    refine ⟨b, bs, rfl, (hfirst 0 (by simp)).mpr rfl, fun d hd => ⟨?_, ?_⟩⟩
    · rcases Nat.lt_or_ge c.toNat 128 with hc | hc
      · -- There is no second byte.
        obtain ⟨b', hb', -⟩ := utf8EncodeChar_narrow hc
        rw [hb', List.cons.injEq] at hbytes
        rw [← hbytes.2] at hd
        cases hd
      · exact utf8EncodeChar_above hc d (hbytes ▸ List.mem_cons_of_mem b hd)
    · obtain ⟨i, hi, rfl⟩ := List.getElem_of_mem hd
      exact (hfirst (i + 1) (by simpa using hi)).not.mpr (Nat.succ_ne_zero i)

theorem utf8EncodeChar_wide {c : Char} (h : 128 ≤ c.toNat) : ∃ b bs,
    String.utf8EncodeChar c = b :: bs ∧ 128 ≤ b.toNat ∧ ∀ d ∈ bs, ¬ d.IsUTF8FirstByte := by
  obtain ⟨b, bs, hbytes, -, hrest⟩ := utf8EncodeChar_eq_cons c
  have hb : b ∈ String.utf8EncodeChar c := hbytes ▸ List.mem_cons_self
  exact ⟨b, bs, hbytes, utf8EncodeChar_above h b hb, fun d hd => (hrest d hd).2⟩

theorem length_utf8_pos {cs : List Char} (h : cs ≠ []) : 0 < (utf8 cs).length := by
  obtain ⟨c, cs, rfl⟩ := List.exists_cons_of_ne_nil h
  obtain ⟨b, bs, hbytes, -⟩ := utf8EncodeChar_eq_cons c
  simp [utf8_cons, hbytes]

theorem takeWhile_utf8_eq_nil (cs : List Char) :
    (utf8 cs).takeWhile (!·.IsUTF8FirstByte) = [] := by
  cases cs with
  | nil => rfl
  | cons c cs =>
    obtain ⟨b, bs, hbytes, hb, -⟩ := utf8EncodeChar_eq_cons c
    simp [utf8_cons, hbytes, hb]

theorem map_ofUInt8_utf8 {cs : List Char} (h : ∀ c ∈ cs, c.toNat < 128) :
    (utf8 cs).map Char.ofUInt8 = cs := by
  induction cs with
  | nil => rfl
  | cons c cs ih =>
    obtain ⟨b, hb, hc⟩ := utf8EncodeChar_narrow (h c List.mem_cons_self)
    rw [utf8_cons, hb, List.map_append, ih fun d hd => h d (List.mem_cons_of_mem c hd),
      List.map_singleton, hc, List.singleton_append]

/-- A run of bytes of a class is one of characters. -/
theorem takeWhile_utf8 {p : Char → Bool} (hp : IsAscii p) (cs : List Char) :
    (utf8 cs).takeWhile (p <| Char.ofUInt8 ·) = utf8 (cs.takeWhile p) := by
  induction cs with
  | nil => rfl
  | cons c cs ih =>
    rw [utf8_cons]
    by_cases hc : c.toNat < 128
    · obtain ⟨b, hb, hchar⟩ := utf8EncodeChar_narrow hc
      rw [hb, List.singleton_append, List.takeWhile_cons, List.takeWhile_cons, hchar, ih]
      cases p c with
      | false => rfl
      | true => simp [utf8_cons, hb]
    · obtain ⟨b, bs, hbytes, hb, -⟩ := utf8EncodeChar_wide (Nat.le_of_not_lt hc)
      have hnot : p c = false := Bool.eq_false_iff.mpr fun h => hc (hp c h)
      rw [hbytes, List.cons_append, List.takeWhile_cons, List.takeWhile_cons, hnot,
        hp.ofUInt8_eq_false hb]
      rfl

theorem eq_of_bytes_eq {s t : String} (h : bytes s = bytes t) : s = t :=
  String.toByteArray_inj.mp (ByteArray.ext (Array.toList_inj.mp h))

theorem isValid_utf8 {s : String} {cs ds : List Char} (h : s.toList = cs ++ ds) :
    String.Pos.Raw.IsValid s ⟨(utf8 cs).length⟩ := by
  refine String.Pos.Raw.isValid_iff_exists_append.mpr ⟨.ofList cs, .ofList ds, ?_, ?_⟩
  · rw [← String.ofList_append, ← h, String.ofList_toList]
  · rw [← bytes_ofList, length_bytes]
    rfl

theorem slice?_isSome_iff {s : String} {start stop : Nat} : (slice? s start stop).isSome ↔
    String.Pos.Raw.IsValid s ⟨start⟩ ∧ String.Pos.Raw.IsValid s ⟨stop⟩ ∧ start ≤ stop := by
  unfold slice?
  split
  · next h => simpa using h
  · next h => simpa using h

theorem slice?_utf8 {s : String} {cs ds es : List Char} (h : s.toList = cs ++ ds ++ es) :
    slice? s (utf8 cs).length (utf8 (cs ++ ds)).length = some (String.ofList ds) := by
  have hstart := isValid_utf8 (h.trans (List.append_assoc cs ds es))
  have hstop := isValid_utf8 h
  have hle : (utf8 cs).length ≤ (utf8 (cs ++ ds)).length := by simp
  rw [slice?, dif_pos ⟨hstart, hstop, hle⟩, Option.some.injEq]
  apply eq_of_bytes_eq
  rw [bytes_ofList, bytes, String.toByteArray_extract, ByteArray.data_extract, Array.toList_extract]
  change (bytes s).extract _ _ = _
  rw [bytes_eq, h, List.extract_eq_take_drop]
  simp

end FrontEnd.Text
