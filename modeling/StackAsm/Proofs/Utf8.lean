import StackAsm.Text.Utf8

/-!
# StackAsm.Proofs.Utf8

Decoding undoes encoding.

The bytes of a character take the decoder through the states that its value prescribes, and back to
where it stands between characters (`Utf8.run_utf8EncodeChar`). So a text comes out of its bytes as
it went in, and bytes come out of their text as they went in just if they are those of a text
(`encode_decode_iff`). The byte of a character below 128 occurs in the bytes of no other, so that
the bytes of a text are divided at it like the text itself (`splitOn_encodeChars`).
-/

namespace StackAsm.Text

namespace Utf8

variable {n value low high owed : Nat} {rest : List UInt8}

/-! ### Single bytes -/

/-- A byte below 128 is a character. -/
theorem run_ascii (h : n ≤ 0x7F) :
    run none (UInt8.ofNat n :: rest) = Char.ofNat n :: run none rest := by
  simp only [run, step, start, UInt8.toNat_ofNat_of_lt' (by omega : n < 256),
    if_pos (by omega : n < 0x80)]
  rfl

/-- A byte can begin a character. -/
theorem run_lead {u : Unfinished} (hn : n < 256) (hlead : lead? n = some u) :
    run none (UInt8.ofNat n :: rest) = run (some u) rest := by
  have hnot : ¬ n < 0x80 := by
    intro h
    rw [lead?, if_pos (by omega)] at hlead
    cases hlead
  simp only [run, step, start, UInt8.toNat_ofNat_of_lt' hn, if_neg hnot, hlead]
  rfl

/-- A byte within the bounds goes on with a character. -/
theorem run_continue (hn : n < 256) (hbounds : low ≤ n ∧ n ≤ high) :
    run (some ⟨value, owed + 2, low, high⟩) (UInt8.ofNat n :: rest) =
      run (some ⟨value * 64 + n % 64, owed + 1, 0x80, 0xBF⟩) rest := by
  simp only [run, step, Unfinished.take?, UInt8.toNat_ofNat_of_lt' hn, if_pos hbounds]
  rfl

/-- The last byte completes it. -/
theorem run_finish (hn : n < 256) (hbounds : low ≤ n ∧ n ≤ high) :
    run (some ⟨value, 1, low, high⟩) (UInt8.ofNat n :: rest) =
      Char.ofNat (value * 64 + n % 64) :: run none rest := by
  simp only [run, step, Unfinished.take?, UInt8.toNat_ofNat_of_lt' hn, if_pos hbounds]
  rfl

/-! ### Characters by the length of their encoding -/

theorem run_two (hlow : 0x7F < n) (hhigh : n ≤ 0x7FF) :
    run none (UInt8.ofNat (n / 64 % 32 + 0xC0) :: UInt8.ofNat (n % 64 + 0x80) :: rest) =
      Char.ofNat n :: run none rest := by
  have hlead : lead? (n / 64 % 32 + 0xC0) = some ⟨n / 64, 1, 0x80, 0xBF⟩ := by
    rw [lead?, if_neg (by omega), if_pos (by omega),
      show n / 64 % 32 + 0xC0 - 0xC0 = n / 64 from by omega]
  have hvalue : n / 64 * 64 + (n % 64 + 0x80) % 64 = n := by omega
  rw [run_lead (by omega) hlead, run_finish (by omega) (by omega), hvalue]

theorem run_three (hlow : 0x7FF < n) (hhigh : n ≤ 0xFFFF) (hvalid : n < 0xD800 ∨ 0xDFFF < n) :
    run none (UInt8.ofNat (n / 4096 % 16 + 0xE0) :: UInt8.ofNat (n / 64 % 64 + 0x80) ::
      UInt8.ofNat (n % 64 + 0x80) :: rest) = Char.ofNat n :: run none rest := by
  obtain ⟨low, high, hlead, hbounds⟩ : ∃ low high,
      lead? (n / 4096 % 16 + 0xE0) = some ⟨n / 4096, 2, low, high⟩ ∧
        low ≤ n / 64 % 64 + 0x80 ∧ n / 64 % 64 + 0x80 ≤ high := by
    rw [lead?, if_neg (by omega), if_neg (by omega), if_pos (by omega),
      show n / 4096 % 16 + 0xE0 - 0xE0 = n / 4096 from by omega]
    -- the bounds are tighter only for values that are too small, or next to the surrogates
    refine ⟨_, _, rfl, ?_, ?_⟩ <;> split <;> omega
  have hvalue : (n / 4096 * 64 + (n / 64 % 64 + 0x80) % 64) * 64 + (n % 64 + 0x80) % 64 = n := by
    omega
  rw [run_lead (by omega) hlead, run_continue (by omega) hbounds,
    run_finish (by omega) (by omega), hvalue]

theorem run_four (hlow : 0xFFFF < n) (hhigh : n < 0x110000) :
    run none (UInt8.ofNat (n / 262144 % 8 + 0xF0) :: UInt8.ofNat (n / 4096 % 64 + 0x80) ::
      UInt8.ofNat (n / 64 % 64 + 0x80) :: UInt8.ofNat (n % 64 + 0x80) :: rest) =
      Char.ofNat n :: run none rest := by
  obtain ⟨low, high, hlead, hbounds⟩ : ∃ low high,
      lead? (n / 262144 % 8 + 0xF0) = some ⟨n / 262144, 3, low, high⟩ ∧
        low ≤ n / 4096 % 64 + 0x80 ∧ n / 4096 % 64 + 0x80 ≤ high := by
    rw [lead?, if_neg (by omega), if_neg (by omega), if_neg (by omega), if_pos (by omega),
      show n / 262144 % 8 + 0xF0 - 0xF0 = n / 262144 from by omega]
    refine ⟨_, _, rfl, ?_, ?_⟩ <;> split <;> omega
  have hvalue : ((n / 262144 * 64 + (n / 4096 % 64 + 0x80) % 64) * 64 +
      (n / 64 % 64 + 0x80) % 64) * 64 + (n % 64 + 0x80) % 64 = n := by omega
  rw [run_lead (by omega) hlead, run_continue (by omega) hbounds,
    run_continue (by omega) (by omega), run_finish (by omega) (by omega), hvalue]

/-- The bytes of a character are taken as this character. -/
theorem run_utf8EncodeChar (c : Char) (rest : List UInt8) :
    run none (String.utf8EncodeChar c ++ rest) = c :: run none rest := by
  have hvalid : c.toNat < 0xD800 ∨ 0xDFFF < c.toNat ∧ c.toNat < 0x110000 := c.valid
  have hvalue : Char.ofNat c.toNat = c := Char.ofNat_toNat c
  unfold String.utf8EncodeChar
  simp only [show c.val.toNat = c.toNat from rfl]
  split
  · rename_i hone
    rw [List.cons_append, List.nil_append, run_ascii hone, hvalue]
  · rename_i hone
    split
    · rename_i htwo
      simp only [List.cons_append, List.nil_append, run_two (by omega) htwo, hvalue]
    · rename_i htwo
      split
      · rename_i hthree
        simp only [List.cons_append, List.nil_append,
          run_three (by omega) hthree (by omega), hvalue]
      · simp only [List.cons_append, List.nil_append,
          run_four (by omega) (by omega : c.toNat < 0x110000), hvalue]

end Utf8

/-! ### Texts -/

theorem run_encodeChars (cs : List Char) : Utf8.run none (encodeChars cs) = cs := by
  induction cs with
  | nil => rfl
  | cons c cs ih => rw [encodeChars, List.flatMap_cons, Utf8.run_utf8EncodeChar, ← encodeChars, ih]

@[simp] theorem decode_encode (text : String) : decode (encode text) = text := by
  rw [decode, encode, run_encodeChars, String.ofList_toList]

/-- Only bytes that encode a text are those of the text that they are read as. -/
theorem encode_decode_iff {bytes : List UInt8} :
    encode (decode bytes) = bytes ↔ ∃ text, encode text = bytes := by
  constructor
  · intro h
    exact ⟨_, h⟩
  · intro h
    obtain ⟨text, rfl⟩ := h
    rw [decode_encode]

@[simp] theorem encode_append (a b : String) : encode (a ++ b) = encode a ++ encode b := by
  simp [encode, encodeChars]

/-! ### Dividing at a byte -/

/-- The byte of a character below 128. -/
theorem utf8EncodeChar_ascii {a : Char} (ha : a.toNat ≤ 0x7F) :
    String.utf8EncodeChar a = [UInt8.ofNat a.toNat] := if_pos ha

/-- A byte below 128 is part of no other character. -/
theorem toNat_of_mem_utf8EncodeChar {c : Char} {b : UInt8} (hb : b.toNat < 0x80)
    (h : b ∈ String.utf8EncodeChar c) : b.toNat = c.toNat := by
  have hlater : ∀ n, 0x80 ≤ n → n < 256 → b ≠ UInt8.ofNat n := by
    intro n hlow hhigh heq
    rw [heq, UInt8.toNat_ofNat_of_lt' hhigh] at hb
    omega
  unfold String.utf8EncodeChar at h
  simp only [show c.val.toNat = c.toNat from rfl] at h
  split at h
  · rename_i hone
    rw [List.mem_singleton.mp h, UInt8.toNat_ofNat_of_lt' (by omega : c.toNat < 256)]
  · -- all bytes of longer encodings are above
    exfalso
    split at h
    · simp only [List.mem_cons, List.not_mem_nil, or_false] at h
      rcases h with h | h <;> exact hlater _ (by omega) (by omega) h
    · split at h
      · simp only [List.mem_cons, List.not_mem_nil, or_false] at h
        rcases h with h | h | h <;> exact hlater _ (by omega) (by omega) h
      · simp only [List.mem_cons, List.not_mem_nil, or_false] at h
        rcases h with h | h | h | h <;> exact hlater _ (by omega) (by omega) h

section

variable {a : Char} (ha : a.toNat ≤ 0x7F)

include ha

theorem encodeChars_cons_ascii (cs : List Char) :
    encodeChars (a :: cs) = UInt8.ofNat a.toNat :: encodeChars cs := by
  rw [encodeChars, List.flatMap_cons, utf8EncodeChar_ascii ha]
  rfl

theorem ascii_not_mem_encodeChars {cs : List Char} (h : a ∉ cs) :
    UInt8.ofNat a.toNat ∉ encodeChars cs := by
  intro hmem
  have hbyte : (UInt8.ofNat a.toNat).toNat = a.toNat :=
    UInt8.toNat_ofNat_of_lt' (by omega : a.toNat < 256)
  obtain ⟨c, hc, hb⟩ := List.mem_flatMap.mp hmem
  have hvalue := toNat_of_mem_utf8EncodeChar (by omega) hb
  rw [hbyte] at hvalue
  obtain rfl : a = c := Char.toNat_inj.mp hvalue
  exact h hc

/-- The bytes of a text are divided at such a character like the text. -/
theorem splitOn_encodeChars (cs : List Char) :
    (encodeChars cs).splitOn (UInt8.ofNat a.toNat) = (cs.splitOn a).map encodeChars := by
  induction hn : cs.length using Nat.strongRecOn generalizing cs with
  | _ n ih =>
    by_cases hmem : a ∈ cs
    · obtain ⟨front, back, rfl, hfront⟩ := List.eq_append_cons_of_mem hmem
      have hback : back.length < n := by
        rw [← hn, List.length_append, List.length_cons]
        omega
      have hbytes : encodeChars (front ++ a :: back) =
          encodeChars front ++ UInt8.ofNat a.toNat :: encodeChars back := by
        rw [← encodeChars_cons_ascii ha, encodeChars, List.flatMap_append]
        rfl
      rw [hbytes, List.splitOn_append_cons_self_of_not_mem (ascii_not_mem_encodeChars ha hfront),
        List.splitOn_append_cons_self_of_not_mem hfront, List.map_cons, ih _ hback back rfl]
    · rw [List.splitOn_eq_singleton (ascii_not_mem_encodeChars ha hmem),
        List.splitOn_eq_singleton hmem]
      rfl

end

end StackAsm.Text
