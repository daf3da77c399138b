import FigmaDevMcp.Tools.Screenshot
import FigmaDevMcp.Ui.Base64

set_option autoImplicit false

/-!
# base64 in both languages

`encode_base64` of `content.rs` and `decoded_len` of `visual.rs`, with the encoder and the decoder
of the plugin.

* `encodeBase64_eq`, `decodedLen_encodeBase64`: the Rust side against base64;
* `base64_round_trip`: **both sides write the same text**, which is decoded as what was written, and
  of which the length is known up to `u32::MAX`.
-/

namespace FigmaDevMcp.Tools.Content

open Base64Url (numbers)

theorem lt_toNat_map (bytes : List UInt8) : ∀ b ∈ bytes.map UInt8.toNat, b < 256 := by
  intro b hb
  obtain ⟨byte, -, rfl⟩ := List.mem_map.1 hb
  exact byte.toNat_lt

theorem encodeBase64_eq (bytes : List UInt8) :
    encodeBase64 bytes = Base64.encode (bytes.map UInt8.toNat) := by
  induction bytes using encodeBase64.induct with
  | case1 | case2 | case3 => rfl
  | case4 a b c rest ih =>
      have hpadding : Base64.padding ((a :: b :: c :: rest).map UInt8.toNat).length =
          Base64.padding (rest.map UInt8.toNat).length := by
        simp only [Base64.padding, List.map_cons, List.length_cons]
        omega
      rw [encodeBase64, ih, Base64.encode, Base64.encode, hpadding]
      rfl

/-- The length of base64 text of bytes, up to the bound of its type. -/
theorem decodedLen_encodeBase64 (bytes : List UInt8) :
    decodedLen (encodeBase64 bytes) = min bytes.length u32Max := by
  rw [decodedLen, encodeBase64_eq, Base64.trailing_encode,
    utf8ByteLength_ascii fun u hu => (Base64.encode_bounds _ u hu).2, Base64.length_encode,
    List.length_map, Base64.padding]
  congr 1
  omega

/-- Text of bytes has nothing that the decoder strips. -/
theorem stripped_encode (bytes : List ℕ) : Raster.stripped (Base64.encode bytes) = Base64.encode bytes := by
  refine List.filter_eq_self.2 fun u hu => ?_
  have hlarge := (Base64.encode_bounds bytes u hu).1
  simp only [Raster.isBase64Whitespace, Bool.not_eq_true', Bool.or_eq_false_iff, beq_eq_false_iff_ne]
  omega

/-- **base64 across the languages.** -/
theorem base64_round_trip (bytes : List UInt8) :
    Raster.decodeBase64 (Raster.encodeBase64 (bytes.map UInt8.toNat)) = some (bytes.map UInt8.toNat) ∧
      encodeBase64 bytes = Raster.encodeBase64 (bytes.map UInt8.toNat) ∧
      decodedLen (encodeBase64 bytes) = min bytes.length u32Max := by
  have hbytes := lt_toNat_map bytes
  rw [Raster.encodeBase64_eq hbytes]
  refine ⟨Raster.decodeBase64_of_decodes ?_, encodeBase64_eq bytes, decodedLen_encodeBase64 bytes⟩
  rw [stripped_encode]
  exact Base64.decodes_encode hbytes

/-- The length of four gibibytes does not fit its type. -/
theorem decodedLen_fourGiB :
    decodedLen (encodeBase64 (List.replicate (2 ^ 32) 0)) ≠ (List.replicate (2 ^ 32) (0 : UInt8)).length := by
  rw [decodedLen_encodeBase64, List.length_replicate]
  decide

end FigmaDevMcp.Tools.Content
