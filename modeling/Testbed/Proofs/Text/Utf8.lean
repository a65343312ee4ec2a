import Mathlib.Tactic.Common
import Testbed.Text.Utf8

/-!
# Reading back written texts

The lenient reading replaces nothing in the bytes of a text: it gives the text back.
-/

namespace Testbed.Text

/-! ## Continuation bytes -/

theorem continuation_succ {b : UInt8} {low high : Nat} (h : low ≤ b.toNat ∧ b.toNat ≤ high)
    (count bits : Nat) (rest : List UInt8) :
    continuation (count + 1) bits low high (b :: rest) =
      continuation count (bits * 64 + (b.toNat - 0x80)) 0x80 0xBF rest := by
  rw [continuation, if_pos h]

theorem continuation_zero (bits low high : Nat) (rest : List UInt8) :
    continuation 0 bits low high rest = (bits, 0, rest) := by
  unfold continuation
  rfl

theorem toNat_byte {n : Nat} (h : n < 0x100) : (UInt8.ofNat n).toNat = n :=
  UInt8.toNat_ofNat_of_lt' h

/-- Six bits of a character, as a byte that may follow. -/
theorem continuation_tail {low high n : Nat} (hlow : low ≤ n % 0x40 + 0x80)
    (hhigh : n % 0x40 + 0x80 ≤ high) (count bits : Nat) (rest : List UInt8) :
    continuation (count + 1) bits low high (UInt8.ofNat (n % 0x40 + 0x80) :: rest) =
      continuation count (bits * 64 + n % 0x40) 0x80 0xBF rest := by
  have hbyte := toNat_byte (n := n % 0x40 + 0x80) (by omega)
  rw [continuation_succ (by rw [hbyte]; exact ⟨hlow, hhigh⟩), hbyte, Nat.add_sub_cancel]

theorem continuation_tail_of_full (count bits n : Nat) (rest : List UInt8) :
    continuation (count + 1) bits 0x80 0xBF (UInt8.ofNat (n % 0x40 + 0x80) :: rest) =
      continuation count (bits * 64 + n % 0x40) 0x80 0xBF rest :=
  continuation_tail (by omega) (by omega) count bits rest

/-! ## Lead bytes -/

/-- The lead of a character of three bytes leaves room for its second byte. -/
theorem lead?_of_three {v : Nat} (hlow : 0x800 ≤ v) (hhigh : v ≤ 0xffff)
    (hvalid : v < 0xd800 ∨ 0xdfff < v) :
    ∃ low high, lead? (v / 4096 % 0x10 + 0xe0) = some ⟨2, v / 4096, low, high⟩ ∧
      low ≤ v / 64 % 0x40 + 0x80 ∧ v / 64 % 0x40 + 0x80 ≤ high := by
  have hbits : v / 4096 % 0x10 = v / 4096 := Nat.mod_eq_of_lt (by omega)
  rw [hbits]
  by_cases hfirst : v / 4096 = 0
  · rw [hfirst]
    exact ⟨0xA0, 0xBF, rfl, by omega, by omega⟩
  · by_cases hsurrogates : v / 4096 = 13
    · rw [hsurrogates]
      exact ⟨0x80, 0x9F, rfl, by omega, by omega⟩
    · refine ⟨0x80, 0xBF, ?_, by omega, by omega⟩
      rw [lead?, if_neg (by omega), if_neg (by omega), if_neg (by omega), if_pos (by omega),
        Nat.add_sub_cancel]

/-- The lead of a character of four bytes leaves room for its second byte. -/
theorem lead?_of_four {v : Nat} (hlow : 0xffff < v) (hhigh : v < 0x110000) :
    ∃ low high, lead? (v / 262144 % 0x08 + 0xf0) = some ⟨3, v / 262144, low, high⟩ ∧
      low ≤ v / 4096 % 0x40 + 0x80 ∧ v / 4096 % 0x40 + 0x80 ≤ high := by
  have hbits : v / 262144 % 0x08 = v / 262144 := Nat.mod_eq_of_lt (by omega)
  rw [hbits]
  by_cases hfirst : v / 262144 = 0
  · rw [hfirst]
    exact ⟨0x90, 0xBF, rfl, by omega, by omega⟩
  · by_cases hlast : v / 262144 = 4
    · rw [hlast]
      exact ⟨0x80, 0x8F, rfl, by omega, by omega⟩
    · refine ⟨0x80, 0xBF, ?_, by omega, by omega⟩
      rw [lead?, if_neg (by omega), if_neg (by omega), if_neg (by omega), if_neg (by omega),
        if_neg (by omega), if_pos (by omega), Nat.add_sub_cancel]

/-! ## Characters and texts -/

/-- A lead byte with the continuation bytes that it asks for is read as one character. -/
theorem decodeOne_of_lead (bits : Nat) (rest : List UInt8) {b : UInt8} {bytes : List UInt8}
    {lead : Lead} (hb : 0x80 ≤ b.toNat) (hlead : lead? b.toNat = some lead)
    (h : continuation lead.count lead.bits lead.low lead.high bytes = (bits, 0, rest)) :
    decodeOne b bytes = (some (Char.ofNat bits), rest) := by
  rw [decodeOne, if_neg (by omega), hlead]
  dsimp only
  rw [h]

/-- The bytes of a character are read as that character. -/
theorem decodeOne_utf8EncodeChar (c : Char) (rest : List UInt8) :
    ∃ b more, String.utf8EncodeChar c = b :: more ∧ decodeOne b (more ++ rest) = (some c, rest) := by
  have hvalid : c.val.toNat < 0xd800 ∨ 0xdfff < c.val.toNat ∧ c.val.toNat < 0x110000 := c.valid
  have hc : Char.ofNat c.val.toNat = c := Char.ofNat_toNat c
  unfold String.utf8EncodeChar
  generalize c.val.toNat = v at hvalid hc
  dsimp only
  split
  · next hone =>
    refine ⟨_, _, rfl, ?_⟩
    rw [decodeOne, toNat_byte (by omega), if_pos (by omega), hc]
    rfl
  · split
    · next hone htwo =>
      refine ⟨_, _, rfl, ?_⟩
      have hbyte := toNat_byte (n := v / 64 % 0x20 + 0xc0) (by omega)
      have hlead : lead? (v / 64 % 0x20 + 0xc0) = some { count := 1, bits := v / 64 } := by
        rw [lead?, if_pos (by omega), Nat.add_sub_cancel, Nat.mod_eq_of_lt (by omega)]
      rw [decodeOne_of_lead _ _ (by omega) (by rw [hbyte, hlead])
        (continuation_tail_of_full 0 (v / 64) v rest |>.trans (continuation_zero _ _ _ _)),
        Nat.div_add_mod', hc]
    · split
      · next htwo hthree =>
        refine ⟨_, _, rfl, ?_⟩
        obtain ⟨low, high, hlead, hlow, hhigh⟩ := lead?_of_three (v := v) (by omega) hthree (by omega)
        have hbyte := toNat_byte (n := v / 4096 % 0x10 + 0xe0) (by omega)
        have hbits : (v / 4096 * 64 + v / 64 % 64) * 64 + v % 64 = v := by omega
        rw [decodeOne_of_lead v rest (by omega) (by rw [hbyte, hlead]), hc]
        calc continuation 2 (v / 4096) low high _
          _ = continuation 1 (v / 4096 * 64 + v / 64 % 64) 0x80 0xBF _ :=
            continuation_tail hlow hhigh 1 _ _
          _ = continuation 0 ((v / 4096 * 64 + v / 64 % 64) * 64 + v % 64) 0x80 0xBF rest :=
            continuation_tail_of_full 0 _ _ _
          _ = (v, 0, rest) := by rw [hbits, continuation_zero]
      · next hthree =>
        refine ⟨_, _, rfl, ?_⟩
        obtain ⟨low, high, hlead, hlow, hhigh⟩ := lead?_of_four (v := v) (by omega) (by omega)
        have hbyte := toNat_byte (n := v / 262144 % 0x08 + 0xf0) (by omega)
        have hbits : ((v / 262144 * 64 + v / 4096 % 64) * 64 + v / 64 % 64) * 64 + v % 64 = v := by omega
        rw [decodeOne_of_lead v rest (by omega) (by rw [hbyte, hlead]), hc]
        calc continuation 3 (v / 262144) low high _
          _ = continuation 2 (v / 262144 * 64 + v / 4096 % 64) 0x80 0xBF _ :=
            continuation_tail hlow hhigh 2 _ _
          _ = continuation 1 ((v / 262144 * 64 + v / 4096 % 64) * 64 + v / 64 % 64) 0x80 0xBF _ :=
            continuation_tail_of_full 1 _ _ _
          _ = continuation 0 (((v / 262144 * 64 + v / 4096 % 64) * 64 + v / 64 % 64) * 64 + v % 64)
              0x80 0xBF rest := continuation_tail_of_full 0 _ _ _
          _ = (v, 0, rest) := by rw [hbits, continuation_zero]

theorem decodeParts_encoded (cs : List Char) :
    decodeParts (cs.flatMap String.utf8EncodeChar) = cs.map some := by
  induction cs with
  | nil => rw [List.flatMap_nil, decodeParts, List.map_nil]
  | cons c cs ih =>
    obtain ⟨b, more, hbytes, hread⟩ := decodeOne_utf8EncodeChar c (cs.flatMap String.utf8EncodeChar)
    rw [List.flatMap_cons, hbytes, List.cons_append, decodeParts, hread, ih, List.map_cons]

theorem toList_loop (bytes : ByteArray) (i : Nat) (read : List UInt8) :
    ByteArray.toList.loop bytes i read = read.reverse ++ bytes.data.toList.drop i := by
  fun_induction ByteArray.toList.loop bytes i read with
  | case1 i read hlt ih =>
    have hlength : i < bytes.data.toList.length := hlt
    rw [ih, List.drop_eq_getElem_cons hlength, List.reverse_cons, List.append_assoc,
      List.singleton_append]
    congr 2
    exact getElem!_pos bytes.data i hlt
  | case2 i read hge =>
    have hlength : bytes.data.toList.length ≤ i := Nat.le_of_not_lt hge
    rw [List.drop_eq_nil_of_le hlength, List.append_nil]

theorem encode_eq (s : String) : encode s = s.toList.flatMap String.utf8EncodeChar := by
  calc encode s
    _ = s.toByteArray.data.toList := toList_loop s.toByteArray 0 []
    _ = s.toList.utf8Encode.data.toList := by rw [String.utf8Encode_toList]
    _ = s.toList.flatMap String.utf8EncodeChar := List.toList_data_toByteArray

/-- The bytes of a text are read as that text. -/
theorem decodeLossy_encode (s : String) : decodeLossy (encode s) = s := by
  rw [decodeLossy, encode_eq, decodeParts_encoded, List.map_map]
  exact (congrArg String.ofList (List.map_id _)).trans String.ofList_toList

end Testbed.Text
