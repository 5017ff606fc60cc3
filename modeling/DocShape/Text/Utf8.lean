import DocShape.Text.Basic

/-!
# Text in bytes

* `Text.encode?` writes a text in UTF-8; a surrogate has no bytes;
* `Text.decode?` reads a text from UTF-8;
* `Text.decode?_encode?` and `Text.encode?_isSome`: what has been written is read back, and what has no
  surrogate can be written.
-/

namespace DocShape

theorem CodePoint.ofChar_toChar {c : CodePoint} (h : c.isSurrogate = false) :
    CodePoint.ofChar c.toChar = c := by
  have valid : c.val.isValidChar := by
    simp only [isSurrogate, isHighSurrogate, isLowSurrogate, Bool.or_eq_false_iff,
      Bool.and_eq_false_iff, decide_eq_false_iff_not] at h
    have := c.isLt
    unfold Nat.isValidChar
    omega
  apply Fin.ext
  show (Char.ofNat c.val).toNat = c.val
  rw [Char.ofNat, dif_pos valid]
  rfl

namespace Text

def encode? (t : Text) : Option ByteArray :=
  if t.any CodePoint.isSurrogate then none
  else some (String.ofList (t.map CodePoint.toChar)).toUTF8

def decode? (bytes : ByteArray) : Option Text := (String.fromUTF8? bytes).map ofString

theorem encode?_isSome {t : Text} (h : ∀ c ∈ t, c.isSurrogate = false) : t.encode?.isSome := by
  have plain : ¬ t.any CodePoint.isSurrogate := by simpa using h
  rw [encode?, if_neg plain]
  rfl

theorem decode?_encode? {t : Text} {bytes : ByteArray} (h : t.encode? = some bytes) :
    decode? bytes = some t := by
  unfold encode? at h
  split at h
  · cases h
  · rename_i plain
    cases h
    have back : ∀ s : String, String.fromUTF8? s.toUTF8 = some s := by
      intro s
      rw [String.fromUTF8?, String.toUTF8_eq_toByteArray, dif_pos s.isValidUTF8]
      rfl
    have same : (t.map CodePoint.toChar).map CodePoint.ofChar = t := by
      rw [List.map_map]
      refine (List.map_congr_left fun c hc => ?_).trans (List.map_id t)
      have hs := List.any_eq_false.1 (Bool.eq_false_iff.2 plain) c hc
      exact CodePoint.ofChar_toChar (Bool.eq_false_iff.2 hs)
    rw [decode?, back, Option.map_some, ofString, String.toList_ofList, same]

end Text

end DocShape
