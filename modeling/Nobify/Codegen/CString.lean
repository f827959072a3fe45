import Mathlib.Data.List.Chain

/-!
# String literals of the generated program

Every path, flag and command word of the generated program passes through
`cg_sb_append_c_string`. It writes the bytes below `0x20` that have no escape of their own as
hexadecimal escapes of two digits. A hexadecimal escape of C has no fixed length: it takes the
longest run of hexadecimal digits, so digits that stand in the text after such a byte are read as
part of the escape.
-/

namespace Nobify.Codegen

open List
open Option (bind_some map_some)

/-- A byte string. -/
abbrev Bytes := List UInt8

/-! ## The encoder -/

/-- A hexadecimal digit of `%02x`. -/
def hexDigit (value : UInt8) : UInt8 :=
  if value < 10 then '0'.toUInt8 + value else 'a'.toUInt8 + (value - 10)

/-- The bytes that are written as hexadecimal escapes. -/
def HexEscaped (byte : UInt8) : Prop :=
  byte < 0x20 ∧ byte ≠ '\n'.toUInt8 ∧ byte ≠ '\r'.toUInt8 ∧ byte ≠ '\t'.toUInt8

instance (byte : UInt8) : Decidable (HexEscaped byte) :=
  inferInstanceAs (Decidable (_ ∧ _ ∧ _ ∧ _))

/-- One byte of the loop of `cg_sb_append_c_string`. -/
def escapeByte (byte : UInt8) : Bytes :=
  if byte = '\\'.toUInt8 then ['\\'.toUInt8, '\\'.toUInt8]
  else if byte = '"'.toUInt8 then ['\\'.toUInt8, '"'.toUInt8]
  else if byte = '\n'.toUInt8 then ['\\'.toUInt8, 'n'.toUInt8]
  else if byte = '\r'.toUInt8 then ['\\'.toUInt8, 'r'.toUInt8]
  else if byte = '\t'.toUInt8 then ['\\'.toUInt8, 't'.toUInt8]
  else if byte < 0x20 then
    ['\\'.toUInt8, 'x'.toUInt8, hexDigit (byte / 16), hexDigit (byte % 16)]
  else [byte]

/-- `cg_sb_append_c_string`. -/
def sbAppendCString (sb sv : Bytes) : Bytes :=
  sb ++ '"'.toUInt8 :: (sv.flatMap escapeByte ++ ['"'.toUInt8])

/-! ## Reading a literal -/

/-- The value of a hexadecimal digit. -/
def hexValue (byte : UInt8) : Option Nat :=
  if '0'.toUInt8 ≤ byte ∧ byte ≤ '9'.toUInt8 then some (byte - '0'.toUInt8).toNat
  else if 'a'.toUInt8 ≤ byte ∧ byte ≤ 'f'.toUInt8 then some ((byte - 'a'.toUInt8).toNat + 10)
  else if 'A'.toUInt8 ≤ byte ∧ byte ≤ 'F'.toUInt8 then some ((byte - 'A'.toUInt8).toNat + 10)
  else none

/-- The value of an octal digit. -/
def octalValue (byte : UInt8) : Option Nat :=
  if '0'.toUInt8 ≤ byte ∧ byte ≤ '7'.toUInt8 then some (byte - '0'.toUInt8).toNat else none

/-- The simple escapes of C. -/
def simpleEscape (byte : UInt8) : Option UInt8 :=
  [('\''.toUInt8, '\''.toUInt8), ('"'.toUInt8, '"'.toUInt8), ('?'.toUInt8, '?'.toUInt8),
    ('\\'.toUInt8, '\\'.toUInt8), ('a'.toUInt8, 7), ('b'.toUInt8, 8), ('f'.toUInt8, 12),
    ('n'.toUInt8, 10), ('r'.toUInt8, 13), ('t'.toUInt8, 9), ('v'.toUInt8, 11)].lookup byte

/-- Where a reader stands between the bytes of a literal. -/
inductive LiteralState where
  | start
  | text
  | backslash
  /-- After `\x` and no digit. -/
  | hexStart
  /-- In a hexadecimal escape of at least one digit. -/
  | hex (value : Nat)
  /-- In an octal escape with room for some more digits. -/
  | octal (value room : Nat)
  | closed
deriving DecidableEq

/-- The byte of a numeric escape, which must be in the range of `unsigned char`. -/
def escapedByte (value : Nat) : Option UInt8 := if value < 256 then some (.ofNat value) else none

/-- One byte outside of escapes. -/
def readText (byte : UInt8) : Option (Bytes × LiteralState) :=
  if byte = '"'.toUInt8 then some ([], .closed)
  else if byte = '\\'.toUInt8 then some ([], .backslash)
  else if byte = '\n'.toUInt8 then none
  else some ([byte], .text)

/-- A byte that ends a numeric escape. -/
def endEscape (value : Nat) (byte : UInt8) : Option (Bytes × LiteralState) :=
  (escapedByte value).bind fun escaped =>
    (readText byte).map fun (denoted, state) => (escaped :: denoted, state)

/-- One byte of a literal: what it denotes and where the reader then stands. -/
def readByte (state : LiteralState) (byte : UInt8) : Option (Bytes × LiteralState) :=
  match state with
  | .start => if byte = '"'.toUInt8 then some ([], .text) else none
  | .text => readText byte
  | .backslash =>
    if byte = 'x'.toUInt8 then some ([], .hexStart)
    else
      match octalValue byte with
      | some digit => some ([], .octal digit 2)
      | none => (simpleEscape byte).map fun escaped => ([escaped], .text)
  | .hexStart => (hexValue byte).map fun digit => ([], .hex digit)
  | .hex value =>
    match hexValue byte with
    | some digit => some ([], .hex (16 * value + digit))
    | none => endEscape value byte
  | .octal value room =>
    match room, octalValue byte with
    | more + 1, some digit => some ([], .octal (8 * value + digit) more)
    | _, _ => endEscape value byte
  | .closed => none

/-- The bytes that the rest of a literal denotes, if the text is exactly one literal. -/
def readLiteral : LiteralState → Bytes → Option Bytes
  | state, [] => if state = .closed then some [] else none
  | state, byte :: rest =>
    (readByte state byte).bind fun (denoted, next) => (readLiteral next rest).map (denoted ++ ·)

/-- The byte string that one C string literal denotes. -/
def cLiteralValue (literal : Bytes) : Option Bytes := readLiteral .start literal

/-! ## What the encoder's bytes denote -/

variable {state next : LiteralState} {byte : UInt8}

/-- A byte that can be read adds what it denotes. -/
theorem readLiteral_cons {denoted : Bytes} (read : readByte state byte = some (denoted, next))
    (rest : Bytes) :
    readLiteral state (byte :: rest) = (readLiteral next rest).map (denoted ++ ·) := by
  rw [readLiteral, read, bind_some]

/-- A byte that denotes nothing yet only moves the reader. -/
theorem readLiteral_move (read : readByte state byte = some ([], next)) (rest : Bytes) :
    readLiteral state (byte :: rest) = readLiteral next rest := by
  rw [readLiteral_cons read]
  exact Option.map_id'

/-- The two digits of an escape are read back. -/
theorem hexValue_hexDigit : ∀ value < 32,
    hexValue (hexDigit (UInt8.ofNat value / 16)) = some (value / 16) ∧
      hexValue (hexDigit (UInt8.ofNat value % 16)) = some (value % 16) := by
  decide

/-- A byte with an escape of its own, or with none, is read back at once. -/
theorem readLiteral_escapeByte (short : ¬ HexEscaped byte) (rest : Bytes) :
    readLiteral .text (escapeByte byte ++ rest) = (readLiteral .text rest).map (byte :: ·) := by
  have opened : readByte .text '\\'.toUInt8 = some ([], .backslash) := rfl
  have simple : ∀ letter : UInt8, readByte .backslash letter = some ([byte], .text) →
      readLiteral .text (['\\'.toUInt8, letter] ++ rest) =
        (readLiteral .text rest).map (byte :: ·) := by
    intro letter read
    rw [cons_append, cons_append, nil_append, readLiteral_move opened, readLiteral_cons read]
    rfl
  unfold escapeByte
  split_ifs with slash quote newline carriage tab control
  · exact simple _ (by rw [slash]; rfl)
  · exact simple _ (by rw [quote]; rfl)
  · exact simple _ (newline ▸ rfl)
  · exact simple _ (carriage ▸ rfl)
  · exact simple _ (tab ▸ rfl)
  · exact absurd ⟨control, newline, carriage, tab⟩ short
  · have plain : readByte .text byte = some ([byte], .text) := by
      rw [readByte, readText, if_neg quote, if_neg slash, if_neg newline]
    exact readLiteral_cons plain rest

/-- After a byte written in hexadecimal the reader is still in the escape. -/
theorem readLiteral_hexEscape (long : HexEscaped byte) (rest : Bytes) :
    readLiteral .text (escapeByte byte ++ rest) = readLiteral (.hex byte.toNat) rest := by
  obtain ⟨control, newline, carriage, tab⟩ := long
  have small : byte.toNat < 32 := UInt8.lt_iff_toNat_lt.mp control
  have slash : byte ≠ '\\'.toUInt8 := by
    rintro rfl
    exact absurd small (by decide)
  have quote : byte ≠ '"'.toUInt8 := by
    rintro rfl
    exact absurd small (by decide)
  have written : escapeByte byte =
      ['\\'.toUInt8, 'x'.toUInt8, hexDigit (byte / 16), hexDigit (byte % 16)] := by
    rw [escapeByte, if_neg slash, if_neg quote, if_neg newline, if_neg carriage, if_neg tab,
      if_pos control]
  have digits := hexValue_hexDigit byte.toNat small
  rw [UInt8.ofNat_toNat] at digits
  have opened : readByte .text '\\'.toUInt8 = some ([], .backslash) := rfl
  have started : readByte .backslash 'x'.toUInt8 = some ([], .hexStart) := rfl
  have first : readByte .hexStart (hexDigit (byte / 16)) = some ([], .hex (byte.toNat / 16)) := by
    rw [readByte, digits.1, map_some]
  have second : readByte (.hex (byte.toNat / 16)) (hexDigit (byte % 16)) =
      some ([], .hex byte.toNat) := by
    rw [readByte, digits.2]
    simp only [Nat.div_add_mod]
  rw [written]
  simp only [cons_append, nil_append]
  rw [readLiteral_move opened, readLiteral_move started, readLiteral_move first,
    readLiteral_move second]

/-- An escape that the next byte does not continue denotes its byte. -/
theorem readLiteral_endEscape {byte next : UInt8} (ended : hexValue next = none) (rest : Bytes) :
    readLiteral (.hex byte.toNat) (next :: rest) =
      (readLiteral .text (next :: rest)).map (byte :: ·) := by
  have inRange : escapedByte byte.toNat = some byte := by
    rw [escapedByte, if_pos byte.toNat_lt, UInt8.ofNat_toNat]
  rw [readLiteral, readLiteral, readByte, readByte, ended]
  simp only [endEscape, inRange, bind_some]
  cases readText next with
  | none => rfl
  | some read =>
    simp only [map_some, bind_some, Option.map_map]
    rfl

/-- An escape denotes a byte of at least the value read so far. -/
theorem readLiteral_hex_head {value : Nat} {text denoted : Bytes}
    (read : readLiteral (.hex value) text = some denoted) :
    ∃ byte others, denoted = byte :: others ∧ value ≤ byte.toNat := by
  induction text generalizing value with
  | nil => cases read
  | cons next rest ih =>
    cases digit : hexValue next with
    | some more =>
      have continued : readByte (.hex value) next = some ([], .hex (16 * value + more)) := by
        rw [readByte, digit]
      rw [readLiteral_move continued] at read
      obtain ⟨byte, others, same, larger⟩ := ih read
      exact ⟨byte, others, same, by omega⟩
    | none =>
      have ended : readByte (.hex value) next = endEscape value next := by
        rw [readByte, digit]
      rw [readLiteral, ended, endEscape, escapedByte] at read
      split_ifs at read with inRange
      · cases shown : readText next with
        | none =>
          rw [shown] at read
          cases read
        | some pair =>
          rw [shown] at read
          simp only [bind_some, map_some, Option.map_eq_some_iff] at read
          obtain ⟨others, -, rfl⟩ := read
          refine ⟨_, _, rfl, ?_⟩
          rw [UInt8.toNat_ofNat_of_lt' inRange]
      · cases read

/-! ## When a literal denotes its text -/

/-- Two neighbours of which the second is read as part of the first one's escape. -/
def RunsOn (byte next : UInt8) : Prop := HexEscaped byte ∧ (hexValue next).isSome = true

/-- The first byte that the encoder writes for a byte continues an escape just when the byte
does. -/
theorem escapeByte_head (byte : UInt8) : ∃ first rest, escapeByte byte = first :: rest ∧
    (hexValue first = none ∧ hexValue byte = none ∨ first = byte ∧ rest = []) := by
  unfold escapeByte
  split_ifs with slash quote newline carriage tab control
  · exact ⟨_, _, rfl, .inl ⟨rfl, slash ▸ rfl⟩⟩
  · exact ⟨_, _, rfl, .inl ⟨rfl, quote ▸ rfl⟩⟩
  · exact ⟨_, _, rfl, .inl ⟨rfl, newline ▸ rfl⟩⟩
  · exact ⟨_, _, rfl, .inl ⟨rfl, carriage ▸ rfl⟩⟩
  · exact ⟨_, _, rfl, .inl ⟨rfl, tab ▸ rfl⟩⟩
  · have small : byte.toNat < 32 := UInt8.lt_iff_toNat_lt.mp control
    have low : ∀ value < 32, hexValue (UInt8.ofNat value) = none := by decide
    have none := low byte.toNat small
    rw [UInt8.ofNat_toNat] at none
    exact ⟨_, _, rfl, .inl ⟨rfl, none⟩⟩
  · exact ⟨byte, [], rfl, .inr ⟨rfl, rfl⟩⟩

/-- The body of a literal is read back exactly when no escape runs on. -/
theorem readLiteral_body_iff {sv : Bytes} (nulFree : 0 ∉ sv) :
    readLiteral .text (sv.flatMap escapeByte ++ ['"'.toUInt8]) = some sv ↔
      sv.IsChain fun byte next => ¬ RunsOn byte next := by
  induction sv with
  | nil => simp only [List.IsChain.nil, iff_true]; rfl
  | cons byte rest ih =>
    have restFree : 0 ∉ rest := fun member => nulFree (mem_cons_of_mem _ member)
    have nonzero : byte ≠ 0 := fun zero => nulFree (zero ▸ mem_cons_self)
    specialize ih restFree
    have peel : ∀ read : Option Bytes, read.map (byte :: ·) = some (byte :: rest) ↔
        read = some rest := by
      intro read
      cases read <;> simp
    rw [flatMap_cons, append_assoc]
    by_cases long : HexEscaped byte
    · rw [readLiteral_hexEscape long]
      cases rest with
      | nil =>
        rw [flatMap_nil, nil_append, readLiteral_endEscape rfl, peel]
        exact iff_of_true rfl (.singleton _)
      | cons next others =>
        rw [isChain_cons_cons, ← ih]
        obtain ⟨first, written, escaped, head⟩ := escapeByte_head next
        rw [flatMap_cons, escaped, cons_append, cons_append]
        rcases head with ⟨ends, digit⟩ | ⟨rfl, rfl⟩
        · -- The next byte is escaped itself and ends the escape.
          have apart : ¬ RunsOn byte next := fun runs => by simp [RunsOn, digit] at runs
          rw [readLiteral_endEscape ends, peel]
          exact ⟨fun read => ⟨apart, read⟩, fun both => both.2⟩
        · cases digit : hexValue first with
          | none =>
            have apart : ¬ RunsOn byte first := fun runs => by simp [RunsOn, digit] at runs
            rw [readLiteral_endEscape digit, peel]
            exact ⟨fun read => ⟨apart, read⟩, fun both => both.2⟩
          | some value =>
            have runs : RunsOn byte first := ⟨long, by rw [digit]; rfl⟩
            refine iff_of_false (fun read => ?_) (fun both => both.1 runs)
            -- The escape takes the digit in, and its value outgrows the byte.
            have continued : readByte (.hex byte.toNat) first =
                some ([], .hex (16 * byte.toNat + value)) := by
              rw [readByte, digit]
            rw [readLiteral_move continued] at read
            obtain ⟨denoted, _, same, larger⟩ := readLiteral_hex_head read
            obtain rfl := (List.cons.inj same).1
            have positive : 0 < byte.toNat :=
              Nat.pos_of_ne_zero fun zero => nonzero (UInt8.toNat_inj.mp zero)
            omega
    · rw [readLiteral_escapeByte long, peel, ih]
      cases rest with
      | nil => exact iff_of_true .nil (.singleton _)
      | cons next others =>
        have apart : ¬ RunsOn byte next := fun runs => long runs.1
        rw [isChain_cons_cons]
        exact ⟨fun read => ⟨apart, read⟩, fun both => both.2⟩

/-- For every builder and every text without NUL, what `cg_sb_append_c_string` appends is one
literal that denotes the text exactly when no byte written in hexadecimal stands before a
hexadecimal digit. -/
theorem appended_literal_denotes_iff (sb : Bytes) {sv : Bytes} (nulFree : 0 ∉ sv) :
    (∃ literal, sbAppendCString sb sv = sb ++ literal ∧ cLiteralValue literal = some sv) ↔
      sv.IsChain fun byte next => ¬ RunsOn byte next := by
  rw [← readLiteral_body_iff nulFree]
  have opened : ∀ text : Bytes, cLiteralValue ('"'.toUInt8 :: text) = readLiteral .text text :=
    readLiteral_move rfl
  constructor
  · rintro ⟨literal, appended, denoted⟩
    obtain rfl := append_cancel_left appended
    rwa [opened] at denoted
  · intro read
    exact ⟨_, rfl, (opened _).trans read⟩

/-- A control byte before a letter that is no hexadecimal digit. -/
theorem appended_literal_denotes_iff_bell : (0 : UInt8) ∉ [7, 'g'.toUInt8] ∧
      ((∃ literal, sbAppendCString [] [7, 'g'.toUInt8] = [] ++ literal ∧
          cLiteralValue literal = some [7, 'g'.toUInt8]) ↔
        [7, 'g'.toUInt8].IsChain fun byte next => ¬ RunsOn byte next) :=
  ⟨by decide, appended_literal_denotes_iff [] (by decide)⟩

/-- The bytes `1` and `a` are written as a literal of the one byte `0x1a`. -/
theorem escape_takes_in_digit : (0 : UInt8) ∉ [1, 'a'.toUInt8] ∧
      sbAppendCString [] [1, 'a'.toUInt8] = ['"', '\\', 'x', '0', '1', 'a', '"'].map Char.toUInt8 ∧
      cLiteralValue (sbAppendCString [] [1, 'a'.toUInt8]) = some [0x1a] := by
  decide

end Nobify.Codegen
