import TraceReplay.Text.Utf8

/-!
Texts written as bytes read back as they were. Beside the round trip this holds what a reader of bytes
needs to know of them: a character of the basic range is one byte, and the bytes of any other one lie
above that range.
-/
namespace TraceReplay.Utf8

def ofChars (cs : List Char) : Bytes := cs.flatMap String.utf8EncodeChar

theorem encode_ofList (cs : List Char) : encode (String.ofList cs) = ofChars cs := by
  rw [encode, String.toList_ofList, ofChars]

@[simp] theorem ofChars_nil : ofChars [] = [] := rfl

theorem ofChars_cons (c : Char) (cs : List Char) :
    ofChars (c :: cs) = String.utf8EncodeChar c ++ ofChars cs := List.flatMap_cons

theorem ofChars_append (cs ds : List Char) : ofChars (cs ++ ds) = ofChars cs ++ ofChars ds :=
  List.flatMap_append

theorem encode_append (first second : String) :
    encode (first ++ second) = encode first ++ encode second := by
  rw [encode, String.toList_append, List.flatMap_append]
  rfl

theorem utf8EncodeChar_ascii {c : Char} (h : c.toNat < 0x80) :
    String.utf8EncodeChar c = [c.toUInt8] := by
  refine String.utf8EncodeChar_eq_singleton (Char.utf8Size_eq_one_iff.mpr ?_)
  exact UInt32.le_iff_toNat_le.mpr (Nat.le_of_lt_succ h)

theorem ofChars_cons_ascii {c : Char} (h : c.toNat < 0x80) (cs : List Char) :
    ofChars (c :: cs) = c.toUInt8 :: ofChars cs := by
  rw [ofChars_cons, utf8EncodeChar_ascii h, List.singleton_append]

/-- A character above the basic range has no byte in it. -/
theorem le_of_mem_utf8EncodeChar {c : Char} (h : 0x80 ≤ c.toNat) {b : UInt8}
    (mem : b ∈ String.utf8EncodeChar c) : 0x80 ≤ b.toNat := by
  change 0x80 ≤ c.val.toNat at h
  simp only [String.utf8EncodeChar, show ¬c.val.toNat ≤ 0x7f by omega, if_false] at mem
  split at mem
  · simp only [List.mem_cons, List.not_mem_nil, or_false] at mem
    rcases mem with rfl | rfl <;> rw [UInt8.toNat_ofNat'] <;> omega
  · split at mem
    · simp only [List.mem_cons, List.not_mem_nil, or_false] at mem
      rcases mem with rfl | rfl | rfl <;> rw [UInt8.toNat_ofNat'] <;> omega
    · simp only [List.mem_cons, List.not_mem_nil, or_false] at mem
      rcases mem with rfl | rfl | rfl | rfl <;> rw [UInt8.toNat_ofNat'] <;> omega

theorem length_le_length_ofChars (cs : List Char) : cs.length ≤ (ofChars cs).length := by
  induction cs with
  | nil => exact Nat.le_refl _
  | cons c cs ih =>
      rw [ofChars_cons, List.length_append, String.length_utf8EncodeChar, List.length_cons]
      have := c.utf8Size_pos
      omega

/-- What follows the encoding of a character has no part in decoding it. -/
theorem char?_encode (c : Char) (rest : Bytes) :
    char? (String.utf8EncodeChar c ++ rest) = some c := by
  have short : (String.utf8EncodeChar c).length ≤ 4 := by
    rw [String.length_utf8EncodeChar]
    exact c.utf8Size_le_four
  rw [char?, List.take_append, List.take_of_length_le short, List.toByteArray_append]
  exact ByteArray.utf8DecodeChar?_utf8EncodeChar_append

theorem char?_nil : char? [] = none := by
  cases found : char? [] with
  | none => rfl
  | some c =>
      have inside := ByteArray.le_size_of_utf8DecodeChar?_eq_some found
      have := c.utf8Size_pos
      simp at inside
      omega

/-- A byte of fuel for each character is enough. -/
theorem frontFrom_ofChars {cs : List Char} {fuel : Bytes} (enough : cs.length ≤ fuel.length) :
    frontFrom fuel (ofChars cs) = (cs, []) := by
  induction cs generalizing fuel with
  | nil =>
      cases fuel with
      | nil => rfl
      | cons b fuel => simp [frontFrom, char?_nil]
  | cons c cs ih =>
      cases fuel with
      | nil => simp at enough
      | cons b fuel =>
          have left : (ofChars (c :: cs)).drop c.utf8Size = ofChars cs := by
            rw [ofChars_cons, ← String.length_utf8EncodeChar, List.drop_left]
          have found : char? (ofChars (c :: cs)) = some c := by
            rw [ofChars_cons]
            exact char?_encode c _
          simp [frontFrom, found, left, ih (Nat.le_of_succ_le_succ enough)]

theorem append_of_char? {bytes : Bytes} {c : Char} (found : char? bytes = some c) :
    ∃ rest, bytes = String.utf8EncodeChar c ++ rest := by
  obtain ⟨rest, taken⟩ := ByteArray.exists_of_utf8DecodeChar?_eq_some found
  refine ⟨rest.data.toList ++ bytes.drop 4, ?_⟩
  have front : bytes.take 4 = String.utf8EncodeChar c ++ rest.data.toList := by
    simpa using congrArg (·.data.toList) taken
  rw [← List.append_assoc, ← front, List.take_append_drop]

/-- What is read off the front, with what is left, is the whole. -/
theorem ofChars_frontFrom (fuel bytes : Bytes) :
    ofChars (frontFrom fuel bytes).1 ++ (frontFrom fuel bytes).2 = bytes := by
  induction fuel generalizing bytes with
  | nil => rfl
  | cons b fuel ih =>
      rw [frontFrom]
      cases found : char? bytes with
      | none => rfl
      | some c =>
          obtain ⟨rest, rfl⟩ := append_of_char? found
          have dropped : (String.utf8EncodeChar c ++ rest).drop c.utf8Size = rest := by
            rw [← String.length_utf8EncodeChar, List.drop_left]
          simp only [dropped, ofChars_cons, List.append_assoc, ih]

theorem decode_ofChars (cs : List Char) : decode (ofChars cs) = .ok (String.ofList cs) := by
  rw [decode, front, frontFrom_ofChars (length_le_length_ofChars cs)]

/-- Every text is read back from its bytes. -/
theorem decode_encode (text : String) : decode (encode text) = .ok text := by
  have same := decode_ofChars text.toList
  rwa [String.ofList_toList] at same

/-- A text has one encoding only. -/
theorem decode_eq_ok_iff {bytes : Bytes} {text : String} :
    decode bytes = .ok text ↔ bytes = encode text := by
  constructor
  · intro decoded
    have whole := ofChars_frontFrom bytes bytes
    rw [decode, front] at decoded
    split at decoded
    case h_1 cs read =>
        cases decoded
        rw [read, List.append_nil] at whole
        rw [encode_ofList, whole]
    case h_2 => cases decoded
  · rintro rfl
    exact decode_encode text

end TraceReplay.Utf8
