import Mathlib.Data.List.Basic

set_option autoImplicit false

/-!
# URL-safe base64

The encoder with its `=` padding, and the lenient decoder of `binascii.a2b_base64`
after the translation of `-` and `_`: a character outside the alphabet is skipped
and the first complete padding ends the input.
-/

namespace MemoryCloud.Base64

def alphabet : List Char :=
  "ABCDEFGHIJKLMNOPQRSTUVWXYZabcdefghijklmnopqrstuvwxyz0123456789-_".toList

def encodeSextet (value : Nat) : Char := alphabet.getD value 'A'

def decodeSextet (character : Char) : Option Nat :=
  let translated :=
    if character = '+' then '-' else if character = '/' then '_' else character
  alphabet.idxOf? translated

def encode : List UInt8 → List Char
  | [] => []
  | [a] => [encodeSextet (a.toNat / 4), encodeSextet (a.toNat % 4 * 16), '=', '=']
  | [a, b] =>
      [encodeSextet (a.toNat / 4), encodeSextet (a.toNat % 4 * 16 + b.toNat / 16),
        encodeSextet (b.toNat % 16 * 4), '=']
  | a :: b :: c :: rest =>
      encodeSextet (a.toNat / 4) :: encodeSextet (a.toNat % 4 * 16 + b.toNat / 16) ::
        encodeSextet (b.toNat % 16 * 4 + c.toNat / 64) :: encodeSextet (c.toNat % 64) ::
        encode rest

structure Decoder where
  quad : Nat := 0
  left : Nat := 0
  pads : Nat := 0
  output : List UInt8 := []
  done : Bool := false

def Decoder.emit (state : Decoder) (quad left byte : Nat) : Decoder :=
  { state with
    quad := quad, left := left, pads := 0, output := state.output ++ [UInt8.ofNat byte] }

def Decoder.sextet (state : Decoder) (value : Nat) : Decoder :=
  match state.quad with
  | 0 => { state with quad := 1, left := value, pads := 0 }
  | 1 => state.emit 2 (value % 16) (state.left * 4 + value / 16)
  | 2 => state.emit 3 (value % 4) (state.left * 16 + value / 4)
  | _ => state.emit 0 0 (state.left * 64 + value)

def Decoder.read (state : Decoder) (character : Char) : Decoder :=
  if state.done then state
  else if character = '=' then
    if state.quad ≥ 2 then
      { state with pads := state.pads + 1, done := decide (state.quad + (state.pads + 1) ≥ 4) }
    else state
  else
    match decodeSextet character with
    | none => state
    | some value => state.sextet value

def decode (text : List Char) : Option (List UInt8) :=
  let final := text.foldl Decoder.read {}
  if final.done ∨ final.quad = 0 then some final.output else none

theorem decodeSextet_encodeSextet {value : Nat} (bound : value < 64) :
    decodeSextet (encodeSextet value) = some value := by
  have table : ∀ value < 64, decodeSextet (encodeSextet value) = some value := by decide +kernel
  exact table value bound

theorem encodeSextet_ne_pad {value : Nat} (bound : value < 64) : encodeSextet value ≠ '=' := by
  have table : ∀ value < 64, encodeSextet value ≠ '=' := by decide +kernel
  exact table value bound

theorem read_encodeSextet {state : Decoder} (going : state.done = false) {value : Nat}
    (bound : value < 64) : state.read (encodeSextet value) = state.sextet value := by
  simp [Decoder.read, going, encodeSextet_ne_pad bound, decodeSextet_encodeSextet bound]

theorem sextet_done (state : Decoder) (value : Nat) : (state.sextet value).done = state.done := by
  unfold Decoder.sextet
  split <;> rfl

theorem foldl_sextets {state : Decoder} (going : state.done = false) (values : List Nat)
    (bounds : ∀ value ∈ values, value < 64) :
    (values.map encodeSextet).foldl Decoder.read state = values.foldl Decoder.sextet state := by
  induction values generalizing state with
  | nil => rfl
  | cons value rest ih =>
    simp only [List.map_cons, List.foldl_cons]
    rw [read_encodeSextet going (bounds value (by simp))]
    exact ih ((sextet_done state value).trans going) fun other listed =>
      bounds other (by simp [listed])

theorem read_triple (output : List UInt8) (a b c : UInt8) :
    ([a.toNat / 4, a.toNat % 4 * 16 + b.toNat / 16, b.toNat % 16 * 4 + c.toNat / 64,
        c.toNat % 64].map encodeSextet).foldl Decoder.read { output := output } =
      { output := output ++ [a, b, c] } := by
  have boundA := a.toNat_lt
  have boundB := b.toNat_lt
  have boundC := c.toNat_lt
  have first : a.toNat / 4 * 4 + (a.toNat % 4 * 16 + b.toNat / 16) / 16 = a.toNat := by omega
  have second : (a.toNat % 4 * 16 + b.toNat / 16) % 16 * 16 +
      (b.toNat % 16 * 4 + c.toNat / 64) / 4 = b.toNat := by omega
  have third : (b.toNat % 16 * 4 + c.toNat / 64) % 4 * 64 + c.toNat % 64 = c.toNat := by omega
  rw [foldl_sextets rfl]
  next =>
    simp only [List.foldl_cons, List.foldl_nil, Decoder.sextet, Decoder.emit, first, second, third,
      UInt8.ofNat_toNat, List.append_assoc, List.singleton_append]
    simp
  next =>
    simp only [List.mem_cons, List.not_mem_nil, or_false]
    omega

theorem read_pair (output : List UInt8) (a b : UInt8) :
    ([a.toNat / 4, a.toNat % 4 * 16 + b.toNat / 16, b.toNat % 16 * 4].map encodeSextet).foldl
        Decoder.read { output := output } =
      { quad := 3, left := 0, output := output ++ [a, b] } := by
  have boundA := a.toNat_lt
  have boundB := b.toNat_lt
  have first : a.toNat / 4 * 4 + (a.toNat % 4 * 16 + b.toNat / 16) / 16 = a.toNat := by omega
  have second : (a.toNat % 4 * 16 + b.toNat / 16) % 16 * 16 + b.toNat % 16 * 4 / 4 = b.toNat := by
    omega
  rw [foldl_sextets rfl]
  next =>
    simp only [List.foldl_cons, List.foldl_nil, Decoder.sextet, Decoder.emit, first, second,
      UInt8.ofNat_toNat, List.append_assoc, List.singleton_append]
    simp
  next =>
    simp only [List.mem_cons, List.not_mem_nil, or_false]
    omega

theorem read_single (output : List UInt8) (a : UInt8) :
    ([a.toNat / 4, a.toNat % 4 * 16].map encodeSextet).foldl Decoder.read { output := output } =
      { quad := 2, left := 0, output := output ++ [a] } := by
  have bound := a.toNat_lt
  have first : a.toNat / 4 * 4 + a.toNat % 4 * 16 / 16 = a.toNat := by omega
  rw [foldl_sextets rfl]
  next =>
    simp only [List.foldl_cons, List.foldl_nil, Decoder.sextet, Decoder.emit, first,
      UInt8.ofNat_toNat]
    simp
  next =>
    simp only [List.mem_cons, List.not_mem_nil, or_false]
    omega

theorem foldl_encode (bytes output : List UInt8) :
    let final := (encode bytes).foldl Decoder.read { output := output }
    final.output = output ++ bytes ∧ (final.done = true ∨ final.quad = 0) := by
  induction bytes using encode.induct generalizing output with
  | case1 => simp [encode]
  | case2 a =>
    have sextets := read_single output a
    simp only [List.map_cons, List.map_nil, List.foldl_cons, List.foldl_nil] at sextets
    simp only [encode, List.foldl_cons, List.foldl_nil, sextets]
    simp [Decoder.read]
  | case3 a b =>
    have sextets := read_pair output a b
    simp only [List.map_cons, List.map_nil, List.foldl_cons, List.foldl_nil] at sextets
    simp only [encode, List.foldl_cons, List.foldl_nil, sextets]
    simp [Decoder.read]
  | case4 a b c rest ih =>
    have sextets := read_triple output a b c
    simp only [List.map_cons, List.map_nil, List.foldl_cons, List.foldl_nil] at sextets
    have later := ih (output ++ [a, b, c])
    simp only [encode, List.foldl_cons, sextets]
    simpa using later

theorem decode_encode (bytes : List UInt8) : decode (encode bytes) = some bytes := by
  have final := foldl_encode bytes []
  simp only [List.nil_append] at final
  simp only [decode]
  rw [if_pos final.2, final.1]

-- `text.rstrip("=")`
def strip (text : List Char) : List Char :=
  (text.reverse.dropWhile fun character => decide (character = '=')).reverse

-- `text + "=" * (-len(text) % 4)`
def pad (text : List Char) : List Char :=
  text ++ List.replicate ((4 - text.length % 4) % 4) '='

theorem encode_shape (bytes : List UInt8) :
    ∃ body count, encode bytes = body ++ List.replicate count '=' ∧
      (∀ character ∈ body, character ≠ '=') ∧ count < 4 ∧ (body.length + count) % 4 = 0 := by
  induction bytes using encode.induct with
  | case1 => exact ⟨[], 0, by simp [encode]⟩
  | case2 a =>
    have bound := a.toNat_lt
    have first : encodeSextet (a.toNat / 4) ≠ '=' := encodeSextet_ne_pad (by omega)
    have second : encodeSextet (a.toNat % 4 * 16) ≠ '=' := encodeSextet_ne_pad (by omega)
    refine ⟨[encodeSextet (a.toNat / 4), encodeSextet (a.toNat % 4 * 16)], 2, ?_⟩
    simp [encode, first, second, List.replicate]
  | case3 a b =>
    have boundA := a.toNat_lt
    have boundB := b.toNat_lt
    have first : encodeSextet (a.toNat / 4) ≠ '=' := encodeSextet_ne_pad (by omega)
    have second : encodeSextet (a.toNat % 4 * 16 + b.toNat / 16) ≠ '=' :=
      encodeSextet_ne_pad (by omega)
    have third : encodeSextet (b.toNat % 16 * 4) ≠ '=' := encodeSextet_ne_pad (by omega)
    refine ⟨[encodeSextet (a.toNat / 4), encodeSextet (a.toNat % 4 * 16 + b.toNat / 16),
      encodeSextet (b.toNat % 16 * 4)], 1, ?_⟩
    simp [encode, first, second, third, List.replicate]
  | case4 a b c rest ih =>
    have boundA := a.toNat_lt
    have boundB := b.toNat_lt
    have boundC := c.toNat_lt
    obtain ⟨body, count, same, plain, small, length⟩ := ih
    have first : encodeSextet (a.toNat / 4) ≠ '=' := encodeSextet_ne_pad (by omega)
    have second : encodeSextet (a.toNat % 4 * 16 + b.toNat / 16) ≠ '=' :=
      encodeSextet_ne_pad (by omega)
    have third : encodeSextet (b.toNat % 16 * 4 + c.toNat / 64) ≠ '=' :=
      encodeSextet_ne_pad (by omega)
    have fourth : encodeSextet (c.toNat % 64) ≠ '=' := encodeSextet_ne_pad (by omega)
    refine ⟨encodeSextet (a.toNat / 4) :: encodeSextet (a.toNat % 4 * 16 + b.toNat / 16) ::
      encodeSextet (b.toNat % 16 * 4 + c.toNat / 64) :: encodeSextet (c.toNat % 64) :: body,
      count, ?_, ?_, small, ?_⟩
    · simp [encode, same]
    · simp only [List.forall_mem_cons]
      exact ⟨first, second, third, fourth, plain⟩
    · simp only [List.length_cons]
      omega

theorem strip_replicate {body : List Char} (plain : ∀ character ∈ body, character ≠ '=')
    (count : Nat) : strip (body ++ List.replicate count '=') = body := by
  have stops : body.reverse.dropWhile (fun character => decide (character = '=')) =
      body.reverse := by
    cases reversed : body.reverse with
    | nil => rfl
    | cons last rest =>
      have listed : last ∈ body := List.mem_reverse.mp (by simp [reversed])
      simp [plain last listed]
  rw [strip, List.reverse_append, List.reverse_replicate, List.dropWhile_append_of_pos]
  next => rw [stops, List.reverse_reverse]
  next =>
    intro character listed
    simp [List.eq_of_mem_replicate listed]

theorem pad_strip_encode (bytes : List UInt8) : pad (strip (encode bytes)) = encode bytes := by
  obtain ⟨body, count, same, plain, small, length⟩ := encode_shape bytes
  have padding : (4 - body.length % 4) % 4 = count := by omega
  rw [same, strip_replicate plain, pad, padding]

end MemoryCloud.Base64
