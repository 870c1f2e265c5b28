import Mathlib.Data.List.Infix
/-!
# UTF-8

Strict decoding of bytes, and what a decoded text has in it: a character is there exactly
where its own bytes are, since no other character's bytes can be read as its first one.
-/

namespace LogAnalytics.Lib.Utf8

/-- `bytes.decode("utf-8", "strict")` -/
def decode (bytes : List UInt8) : Option (List Char) := bytes.toByteArray.utf8Decode?.map Array.toList

/-- What is decoded is what was encoded. -/
theorem decode_eq_some {bytes : List UInt8} {cs : List Char} :
    decode bytes = some cs ↔ cs.flatMap String.utf8EncodeChar = bytes := by
  unfold decode
  constructor
  · intro h
    obtain ⟨chars, hchars, rfl⟩ := Option.map_eq_some_iff.1 h
    have hget := ByteArray.utf8Encode_get_utf8Decode? (b := bytes.toByteArray) (h := by simp [hchars])
    simpa [hchars, List.utf8Encode] using hget
  · rintro rfl
    exact congrArg (Option.map Array.toList) List.utf8Decode?_utf8Encode |>.trans (by simp)

/-- A character is a first byte with bytes behind it that are none. -/
theorem exists_first (c : Char) : ∃ b bs, String.utf8EncodeChar c = b :: bs ∧ b.IsUTF8FirstByte ∧
    ∀ x ∈ bs, ¬x.IsUTF8FirstByte := by
  have hfirst : ∀ (i : Nat) (hi : i < (String.utf8EncodeChar c).length),
      (String.utf8EncodeChar c)[i].IsUTF8FirstByte ↔ i = 0 := fun i hi => UInt8.isUTF8FirstByte_getElem_utf8EncodeChar
  have hlen : 0 < (String.utf8EncodeChar c).length := by simpa using c.utf8Size_pos
  cases hbytes : String.utf8EncodeChar c with
  | nil => simp [hbytes] at hlen
  | cons b bs =>
    simp only [hbytes] at hfirst
    refine ⟨b, bs, rfl, (hfirst 0 (by simp)).2 rfl, fun x hx => ?_⟩
    obtain ⟨i, hi, rfl⟩ := List.mem_iff_getElem.1 hx
    exact fun h => absurd ((hfirst (i + 1) (by simpa using hi)).1 h) (by omega)

/-- Which character comes first can be read off the bytes. -/
theorem encode_append_inj {c d : Char} {bs bs' : List UInt8}
    (h : String.utf8EncodeChar c ++ bs = String.utf8EncodeChar d ++ bs') : c = d := by
  have hdecode : ∀ (c : Char) (bs : List UInt8),
      (String.utf8EncodeChar c ++ bs).toByteArray.utf8DecodeChar? 0 = some c := fun c bs => by
    rw [List.toByteArray_append, ByteArray.utf8DecodeChar?_utf8EncodeChar_append]
  exact Option.some.inj ((hdecode c bs).symm.trans (h ▸ hdecode d bs'))

/-- The bytes of a character in a text are there for that character. -/
theorem mem_of_infix {c : Char} {cs : List Char} (h : String.utf8EncodeChar c <:+: cs.flatMap String.utf8EncodeChar) :
    c ∈ cs := by
  obtain ⟨before, after, h⟩ := h
  obtain ⟨b, bs, hc, hb, -⟩ := exists_first c
  induction cs generalizing before with
  | nil => simp [hc] at h
  | cons d cs ih =>
    rw [List.flatMap_cons, List.append_assoc] at h
    cases before with
    | nil => exact List.mem_cons.2 (.inl (encode_append_inj h))
    | cons x before =>
      obtain ⟨rest, hd, hrest⟩ | ⟨rest, -, hrest⟩ := List.append_eq_append_iff.1 h
      · cases rest with
        | nil => exact List.mem_cons_of_mem _ (ih [] (by simpa using hrest))
        | cons y rest =>
          -- The first byte of `c` would be one of the later bytes of `d`.
          obtain ⟨b', bs', hd', -, hlater⟩ := exists_first d
          rw [hc, List.cons_append, List.cons_append, List.cons.injEq] at hrest
          rw [hd', List.cons_append, List.cons.injEq] at hd
          exact absurd hb (hlater b (by simp [hd.2, hrest.1]))
      · exact List.mem_cons_of_mem _ (ih rest (by simpa using hrest.symm))

/-- A character is in the text exactly where its bytes are in the bytes. -/
theorem mem_decode {bytes : List UInt8} {cs : List Char} (h : decode bytes = some cs) (c : Char) :
    c ∈ cs ↔ String.utf8EncodeChar c <:+: bytes := by
  rw [← decode_eq_some.1 h]
  refine ⟨fun hc => ?_, mem_of_infix⟩
  obtain ⟨before, after, rfl⟩ := List.append_of_mem hc
  exact ⟨before.flatMap String.utf8EncodeChar, after.flatMap String.utf8EncodeChar, by simp⟩

end LogAnalytics.Lib.Utf8
