import Docich.Fallible
import Docich.Overlay.Queue
import Docich.Wire.Utf8

/-!
# The OSC codec

`encode_message`, `decode_message` and `decode_packet`, on the bytes of a packet. What was encoded is decoded
(`decodeMessage_encode`), bundles of it are flattened (`decodeAt_packs`), and no packet keeps the decoder going: the
length of the packet is fuel enough (`decode_fuel`).
-/

namespace Docich.Osc.Codec

open List Fallible

abbrev Text : Type := List Char

abbrev Bytes : Type := List ℕ

/-! ## Values -/

/-- The floating point numbers and `struct` on them, as bit patterns. A number that is a finite binary32 is packed as what
it is unpacked from. -/
structure Floats where
  Double : Type
  finite : Double → Bool
  pack : Double → Option ℕ
  unpack : ℕ → Double
  unpack64 : ℕ → Double
  pack_unpack : ∀ bits < 2 ^ 32, finite (unpack bits) = true → pack (unpack bits) = some bits

variable (F : Floats)

/-- An argument; `char` is the text of one code point. -/
inductive Arg
  | none
  | bool (b : Bool)
  | int (n : ℤ)
  | float (x : F.Double)
  | str (s : Text)
  | blob (b : Bytes)
  | char (code : ℕ)

structure OscMessage where
  address : Text
  args : List (Arg F)

/-- The errors; running out of fuel is none of them. -/
inductive Failure
  | nul
  | address
  | addressSpace
  | addressLong
  | intRange
  | notFinite
  | overflow
  | unsupported
  | tooLarge
  | empty
  | unterminated
  | notUtf8
  | noComma
  | truncated
  | blobSize
  | charRange
  | unsupportedTag
  | tooDeep
  | elementTruncated
  | elementSize
  | outOfFuel

def maxPacket : ℕ := 65535

/-! ## Writing -/

def pad4 (data : Bytes) : Bytes :=
  if data.length % 4 = 0 then data else data ++ List.replicate (4 - data.length % 4) 0

def encodeString (s : Text) : Except Failure Bytes :=
  let raw := Wire.Utf8.encode s
  if 0 ∈ raw then .error .nul else .ok (pad4 (raw ++ [0]))

def validateAddress (address : Text) : Except Failure Unit :=
  if address.head? ≠ some '/' then .error .address
  else if address.any Overlay.isSpace then .error .addressSpace
  else if 255 < address.length then .error .addressLong
  else .ok ()

/-- The four bytes of a number, the highest first. -/
def be32 (n : ℕ) : Bytes := [n / 2 ^ 24 % 256, n / 2 ^ 16 % 256, n / 2 ^ 8 % 256, n % 256]

/-- `struct.pack` of a number that is in range. -/
def packInt (n : ℤ) : Bytes := be32 (n % 2 ^ 32).toNat

variable {F}

/-- The tag and the bytes of an argument. -/
def encodeArg : Arg F → Except Failure (Char × Bytes)
  | .bool b => .ok ('i', packInt (if b then 1 else 0))
  | .int n => if -2 ^ 31 ≤ n ∧ n < 2 ^ 31 then .ok ('i', packInt n) else .error .intRange
  | .float x =>
    if F.finite x then
      match F.pack x with
      | some bits => .ok ('f', be32 bits)
      | none => .error .overflow
    else .error .notFinite
  | .str s => (encodeString s).map ('s', ·)
  | .blob b => if b.length < 2 ^ 31 then .ok ('b', packInt b.length ++ pad4 b) else .error .overflow
  | .none | .char _ => .error .unsupported

def encodeArgs : List (Arg F) → Except Failure (Text × Bytes)
  | [] => .ok ([], [])
  | arg :: args => do
    let (tag, bytes) ← encodeArg arg
    let (tags, payload) ← encodeArgs args
    return (tag :: tags, bytes ++ payload)

def encodeMessage (address : Text) (args : List (Arg F)) : Except Failure Bytes := do
  validateAddress address
  let (tags, payload) ← encodeArgs args
  let first ← encodeString address
  let second ← encodeString (',' :: tags)
  let packet := first ++ second ++ payload
  if maxPacket < packet.length then .error .tooLarge else return packet

/-! ## Reading -/

def readString (data : Bytes) (offset : ℕ) : Except Failure (Text × ℕ) :=
  let rest := data.drop offset
  let raw := rest.takeWhile (· ≠ 0)
  if raw.length = rest.length then .error .unterminated
  else
    match Wire.Utf8.decode raw with
    | none => .error .notUtf8
    | some text => .ok (text, min (offset + (raw.length + 4) / 4 * 4) data.length)

def number (bytes : Bytes) : ℕ := bytes.foldl (fun n b => n * 256 + b) 0

/-- A number of two's complement. -/
def signed (bits n : ℕ) : ℤ := if n < 2 ^ (bits - 1) then n else (n : ℤ) - 2 ^ bits

/-- Bytes at an offset, where the packet has as many. -/
def readBytes (data : Bytes) (offset size : ℕ) : Except Failure Bytes :=
  if data.length < offset + size then .error .truncated else .ok ((data.drop offset).take size)

/-- The argument of a tag, and where the next one begins. -/
def decodeArg (data : Bytes) (offset : ℕ) (tag : Char) : Except Failure (Arg F × ℕ) :=
  match tag with
  | 'i' => do
    let bytes ← readBytes data offset 4
    return (.int (signed 32 (number bytes)), offset + 4)
  | 'f' => do
    let bytes ← readBytes data offset 4
    return (.float (F.unpack (number bytes)), offset + 4)
  | 's' | 'S' => do
    let (text, next) ← readString data offset
    return (.str text, next)
  | 'b' => do
    let bytes ← readBytes data offset 4
    let size := signed 32 (number bytes)
    if size < 0 ∨ (data.length : ℤ) < offset + 4 + size then .error .blobSize
    else return (.blob ((data.drop (offset + 4)).take size.toNat), offset + 4 + (size.toNat + 3) / 4 * 4)
  | 'T' => .ok (.bool true, offset)
  | 'F' => .ok (.bool false, offset)
  | 'N' => .ok (.none, offset)
  | 'h' => do
    let bytes ← readBytes data offset 8
    return (.int (signed 64 (number bytes)), offset + 8)
  | 'd' => do
    let bytes ← readBytes data offset 8
    return (.float (F.unpack64 (number bytes)), offset + 8)
  | 'c' => do
    let bytes ← readBytes data offset 4
    let code := signed 32 (number bytes)
    if 0 ≤ code ∧ code < 0x110000 then return (.char code.toNat, offset + 4) else .error .charRange
  | 'r' | 'm' => do
    let bytes ← readBytes data offset 4
    return (.blob bytes, offset + 4)
  | 't' => do
    let bytes ← readBytes data offset 8
    return (.int (number bytes), offset + 8)
  | _ => .error .unsupportedTag

def decodeArgs (data : Bytes) : ℕ → Text → Except Failure (List (Arg F))
  | _, [] => .ok []
  | offset, tag :: tags => do
    let (arg, next) ← decodeArg data offset tag
    let args ← decodeArgs data next tags
    return arg :: args

/-- The tags behind their comma. -/
def tagsOf : Text → Except Failure Text
  | ',' :: tags => .ok tags
  | _ => .error .noComma

def decodeMessage (data : Bytes) : Except Failure (OscMessage F) :=
  if data = [] then .error .empty
  else if maxPacket < data.length then .error .tooLarge
  else do
    let (address, offset) ← readString data 0
    validateAddress address
    let (tags, offset) ← readString data offset
    let tags ← tagsOf tags
    let args ← decodeArgs data offset tags
    return ⟨address, args⟩

/-- `#bundle` and its NUL. -/
def bundleHeader : Bytes := [35, 98, 117, 110, 100, 108, 101, 0]

mutual

def decodeAt : ℕ → ℕ → Bytes → Except Failure (List (OscMessage F))
  | 0, _, _ => .error .outOfFuel
  | fuel + 1, depth, data =>
    if bundleHeader <+: data then
      if 4 ≤ depth then .error .tooDeep else decodeElements fuel depth data (bundleHeader.length + 8)
    else do
      let message ← decodeMessage data
      return [message]

/-- The loop over the elements of a bundle. -/
def decodeElements : ℕ → ℕ → Bytes → ℕ → Except Failure (List (OscMessage F))
  | 0, _, _, _ => .error .outOfFuel
  | fuel + 1, depth, data, offset =>
    if offset < data.length then
      if data.length < offset + 4 then .error .elementTruncated
      else
        let size := signed 32 (number ((data.drop offset).take 4))
        if size < 0 ∨ (data.length : ℤ) < offset + 4 + size then .error .elementSize
        else do
          let messages ← decodeAt fuel (depth + 1) ((data.drop (offset + 4)).take size.toNat)
          let rest ← decodeElements fuel depth data (offset + 4 + size.toNat)
          return messages ++ rest
    else .ok []

end

/-- `decode_packet`, with the length of the packet as fuel. -/
def decodePacket (data : Bytes) : Except Failure (List (OscMessage F)) := decodeAt (data.length + 1) 0 data

/-! ## Numbers and strings -/

variable (data : Bytes) (offset : ℕ)

theorem length_pad4 : (pad4 data).length = (data.length + 3) / 4 * 4 := by
  unfold pad4
  split_ifs with h
  · omega
  · rw [length_append, length_replicate]
    omega

theorem pad4_eq : ∃ zeros, pad4 data = data ++ zeros := by
  unfold pad4
  split_ifs
  · exact ⟨[], (append_nil data).symm⟩
  · exact ⟨_, rfl⟩

variable {n fuel depth : ℕ} {before after bytes packet : Bytes} {s address : Text} {arg : Arg F}
    {args : List (Arg F)}

theorem number_be32 (h : n < 2 ^ 32) : number (be32 n) = n := by
  simp only [number, be32, foldl_cons, foldl_nil]
  omega

theorem signed_packInt {n : ℤ} (h : -2 ^ 31 ≤ n ∧ n < 2 ^ 31) : signed 32 (number (packInt n)) = n := by
  have hlt : (n % 2 ^ 32).toNat < 2 ^ 32 := by omega
  rw [packInt, number_be32 hlt, signed]
  split_ifs with hs
  · omega
  · omega

theorem length_be32 (n : ℕ) : (be32 n).length = 4 := rfl

theorem length_packInt (n : ℤ) : (packInt n).length = 4 := rfl

/-- A string is read where it was written at an aligned offset. -/
theorem readString_written {raw : Bytes} {text : Text} (halign : before.length % 4 = 0) (h0 : 0 ∉ raw)
    (hd : Wire.Utf8.decode raw = some text) :
    readString (before ++ pad4 (raw ++ [0]) ++ after) before.length =
      .ok (text, before.length + (pad4 (raw ++ [0])).length) := by
  obtain ⟨zeros, hz⟩ := pad4_eq (raw ++ [0])
  have hlen := length_pad4 (raw ++ [0])
  rw [length_append, length_singleton] at hlen
  have hrest : (before ++ pad4 (raw ++ [0]) ++ after).drop before.length = raw ++ 0 :: (zeros ++ after) := by
    rw [append_assoc, drop_left, hz]
    simp
  have hraw : (raw ++ 0 :: (zeros ++ after)).takeWhile (· ≠ 0) = raw := by
    have hnz : ∀ b ∈ raw, decide (b ≠ 0) = true := fun b hb => decide_eq_true (ne_of_mem_of_not_mem hb h0)
    rw [takeWhile_append_of_pos hnz, takeWhile_cons_of_neg (by simp), append_nil]
  have hshort : raw.length ≠ (raw ++ 0 :: (zeros ++ after)).length := by
    rw [length_append, length_cons]
    omega
  simp only [readString, hrest, hraw, if_neg hshort, hd]
  have hnext : min (before.length + (raw.length + 4) / 4 * 4) (before ++ pad4 (raw ++ [0]) ++ after).length =
      before.length + (pad4 (raw ++ [0])).length := by
    rw [length_append, length_append]
    omega
  rw [hnext]

theorem readBytes_written (before bytes after : Bytes) {size : ℕ} (h : bytes.length = size) :
    readBytes (before ++ bytes ++ after) before.length size = .ok bytes := by
  have hlen : ¬ (before ++ bytes ++ after).length < before.length + size := by
    rw [length_append, length_append]
    omega
  rw [readBytes, if_neg hlen, append_assoc, drop_left, ← h, take_left]

theorem encodeString_ok (h : encodeString s = .ok bytes) :
    0 ∉ Wire.Utf8.encode s ∧ bytes = pad4 (Wire.Utf8.encode s ++ [0]) := by
  unfold encodeString at h
  dsimp only at h
  split at h
  · cases h
  · next h0 =>
    cases h
    exact ⟨h0, rfl⟩

theorem readString_encode (halign : before.length % 4 = 0)
    (h : encodeString s = .ok bytes) :
    readString (before ++ bytes ++ after) before.length = .ok (s, before.length + bytes.length) := by
  obtain ⟨h0, rfl⟩ := encodeString_ok h
  exact readString_written halign h0 (Wire.Utf8.decode_encode s)

theorem encodeString_align (h : encodeString s = .ok bytes) : bytes.length % 4 = 0 := by
  obtain ⟨-, rfl⟩ := encodeString_ok h
  rw [length_pad4]
  omega

/-! ## Arguments -/

/-- The arguments that can be sent: a float is one that is a binary32. -/
def Sendable : Arg F → Prop
  | .bool _ => True
  | .int n => -2 ^ 31 ≤ n ∧ n < 2 ^ 31
  | .float x => F.finite x = true ∧ ∃ bits < 2 ^ 32, x = F.unpack bits
  | .str s => '\x00' ∉ s
  | .blob b => b.length ≤ maxPacket
  | .none | .char _ => False

/-- What arrives: a boolean value as a number. -/
def sent : Arg F → Arg F
  | .bool b => .int (if b then 1 else 0)
  | arg => arg

theorem encodeString_total (h : '\x00' ∉ s) : ∃ bytes, encodeString s = .ok bytes := by
  have h0 : 0 ∉ Wire.Utf8.encode s := fun h0 => h (Wire.Utf8.mem_encode h0 (by decide))
  exact ⟨_, if_neg h0⟩

theorem encodeArg_total (h : Sendable arg) :
    ∃ tag bytes, encodeArg arg = .ok (tag, bytes) ∧ tag ∈ ['i', 'f', 's', 'b'] := by
  cases arg with
  | none => cases h
  | bool b => exact ⟨'i', _, rfl, by decide⟩
  | int n => exact ⟨'i', _, if_pos h, by decide⟩
  | float x =>
    obtain ⟨hfin, bits, hbits, rfl⟩ := h
    refine ⟨'f', be32 bits, ?_, by decide⟩
    simp only [encodeArg, hfin, if_true, F.pack_unpack bits hbits hfin]
  | str s =>
    obtain ⟨bytes, hb⟩ := encodeString_total h
    refine ⟨'s', bytes, ?_, by decide⟩
    simp only [encodeArg, hb, Except.map]
  | blob b =>
    have hb : b.length < 2 ^ 31 := Nat.lt_of_le_of_lt h (by decide)
    exact ⟨'b', _, if_pos hb, by decide⟩
  | char code => cases h

/-- An argument is read where it was written. -/
theorem decodeArg_encode (hs : Sendable arg) {tag : Char} (h : encodeArg arg = .ok (tag, bytes))
    (halign : before.length % 4 = 0) (after : Bytes) :
    decodeArg (before ++ bytes ++ after) before.length tag = .ok (sent arg, before.length + bytes.length) ∧
      bytes.length % 4 = 0 := by
  cases arg with
  | none => cases hs
  | char code => cases hs
  | bool b =>
    cases h
    have hrange : -2 ^ 31 ≤ (if b then 1 else 0 : ℤ) ∧ (if b then 1 else 0 : ℤ) < 2 ^ 31 := by cases b <;> decide
    refine ⟨?_, by rw [length_packInt]⟩
    rw [decodeArg, ok_bind (readBytes_written before _ after (length_packInt _)), signed_packInt hrange]
    rfl
  | int n =>
    have hrange : -2 ^ 31 ≤ n ∧ n < 2 ^ 31 := hs
    rw [encodeArg, if_pos hrange] at h
    cases h
    refine ⟨?_, by rw [length_packInt]⟩
    rw [decodeArg, ok_bind (readBytes_written before _ after (length_packInt _)), signed_packInt hrange]
    rfl
  | float x =>
    obtain ⟨hfin, bits, hbits, rfl⟩ := hs
    simp only [encodeArg, hfin, if_true, F.pack_unpack bits hbits hfin] at h
    cases h
    refine ⟨?_, by rw [length_be32]⟩
    rw [decodeArg, ok_bind (readBytes_written before _ after (length_be32 _)), number_be32 hbits]
    rfl
  | str s =>
    obtain ⟨written, hw⟩ := encodeString_total hs
    simp only [encodeArg, hw, Except.map] at h
    cases h
    refine ⟨?_, encodeString_align hw⟩
    rw [decodeArg, ok_bind (readString_encode halign hw)]
    rfl
  | blob b =>
    have hb : b.length < 2 ^ 31 := Nat.lt_of_le_of_lt hs (by decide)
    rw [encodeArg, if_pos hb] at h
    cases h
    obtain ⟨zeros, hz⟩ := pad4_eq b
    have hlen := length_pad4 b
    have hsize : signed 32 (number (packInt b.length)) = b.length := signed_packInt ⟨by omega, by omega⟩
    have hdata : before ++ (packInt b.length ++ pad4 b) ++ after = before ++ packInt b.length ++ (pad4 b ++ after) := by
      simp only [append_assoc]
    refine ⟨?_, by rw [length_append, length_packInt]; omega⟩
    rw [hdata, decodeArg, ok_bind (readBytes_written before _ _ (length_packInt _)), hsize]
    have hfits : ¬ ((b.length : ℤ) < 0 ∨
        ((before ++ packInt b.length ++ (pad4 b ++ after)).length : ℤ) < before.length + 4 + b.length) := by
      simp only [length_append, length_packInt]
      omega
    have hdrop : (before ++ packInt b.length ++ (pad4 b ++ after)).drop (before.length + 4) = b ++ (zeros ++ after) := by
      have : before.length + 4 = (before ++ packInt b.length).length := by rw [length_append, length_packInt]
      rw [this, drop_left, hz, append_assoc]
    rw [if_neg hfits, hdrop, Int.toNat_natCast, take_left, length_append, length_packInt, hlen]
    have hnext : before.length + 4 + (b.length + 3) / 4 * 4 = before.length + (4 + (b.length + 3) / 4 * 4) := Nat.add_assoc _ _ _
    rw [hnext]
    rfl

theorem decodeArgs_encode (hs : ∀ a ∈ args, Sendable a) {tags : Text} {payload : Bytes}
    (h : encodeArgs args = .ok (tags, payload)) (halign : before.length % 4 = 0) :
    decodeArgs (before ++ payload) before.length tags = .ok (args.map sent) := by
  induction args generalizing tags payload before with
  | nil =>
    cases h
    rfl
  | cons arg args ih =>
    obtain ⟨⟨tag, bytes⟩, ha, h⟩ := bind_ok h
    obtain ⟨⟨tags', rest⟩, hr, h⟩ := bind_ok h
    cases h
    obtain ⟨hread, hb⟩ := decodeArg_encode (hs arg mem_cons_self) ha halign rest
    have halign' : (before ++ bytes).length % 4 = 0 := by
      rw [length_append]
      omega
    have hrest := ih (fun a ha => hs a (mem_cons_of_mem _ ha)) hr halign'
    rw [append_assoc] at hread hrest
    rw [length_append] at hrest
    rw [decodeArgs, ok_bind hread]
    dsimp only
    rw [ok_bind hrest]
    rfl

/-! ## Messages -/

theorem encodeArgs_total (hs : ∀ a ∈ args, Sendable a) :
    ∃ tags payload, encodeArgs args = .ok (tags, payload) ∧ ∀ t ∈ tags, t ∈ ['i', 'f', 's', 'b'] := by
  induction args with
  | nil => exact ⟨[], [], rfl, fun _ h => absurd h not_mem_nil⟩
  | cons arg args ih =>
    obtain ⟨tag, bytes, ha, ht⟩ := encodeArg_total (hs arg mem_cons_self)
    obtain ⟨tags, payload, hr, hts⟩ := ih fun a ha => hs a (mem_cons_of_mem _ ha)
    refine ⟨tag :: tags, bytes ++ payload, ?_, fun t hmem => ?_⟩
    · rw [encodeArgs, ok_bind ha]
      dsimp only
      rw [ok_bind hr]
      rfl
    · rcases mem_cons.mp hmem with rfl | hmem
      · exact ht
      · exact hts t hmem

/-- An address that can be sent. -/
def ValidAddress (address : Text) : Prop :=
  address.head? = some '/' ∧ (∀ c ∈ address, Overlay.isSpace c = false) ∧ address.length ≤ 255 ∧ '\x00' ∉ address

theorem ValidAddress.validate (h : ValidAddress address) : validateAddress address = .ok () := by
  obtain ⟨hhead, hspace, hlen, -⟩ := h
  have hany : address.any Overlay.isSpace = false := by
    rw [any_eq_false]
    intro c hc
    rw [hspace c hc]
    exact Bool.false_ne_true
  rw [validateAddress, if_neg (not_not.mpr hhead), hany, if_neg Bool.false_ne_true, if_neg (by omega)]

/-- Nothing but its length keeps a message from being encoded. -/
theorem encodeMessage_error (hv : ValidAddress address) (hs : ∀ a ∈ args, Sendable a)
    {e : Failure} (h : encodeMessage address args = .error e) : e = .tooLarge := by
  obtain ⟨tags, payload, ha, hts⟩ := encodeArgs_total hs
  obtain ⟨first, hf⟩ := encodeString_total hv.2.2.2
  have hnul : '\x00' ∉ ',' :: tags := by
    intro h
    rcases mem_cons.mp h with h | h
    · exact absurd h (by decide)
    · exact absurd (hts _ h) (by decide)
  obtain ⟨second, hsec⟩ := encodeString_total hnul
  rw [encodeMessage, ok_bind hv.validate, ok_bind ha] at h
  dsimp only at h
  rw [ok_bind hf, ok_bind hsec] at h
  split at h
  · cases h
    rfl
  · cases h

/-- What was encoded is decoded. -/
theorem decodeMessage_encode (hs : ∀ a ∈ args, Sendable a)
    (h : encodeMessage address args = .ok packet) : decodeMessage packet = .ok ⟨address, args.map sent⟩ := by
  obtain ⟨⟨⟩, hv, h⟩ := bind_ok h
  obtain ⟨⟨tags, payload⟩, ha, h⟩ := bind_ok h
  obtain ⟨first, hf, h⟩ := bind_ok h
  obtain ⟨second, hsec, h⟩ := bind_ok h
  dsimp only at h
  split at h
  · cases h
  · next hlen =>
    cases h
    have hpos : first ++ second ++ payload ≠ [] := by
      intro hnil
      obtain ⟨-, rfl⟩ := encodeString_ok hf
      have hl := congrArg List.length hnil
      rw [length_append, length_append, length_pad4, length_append, length_singleton, length_nil] at hl
      omega
    have halign := encodeString_align hf
    have halign' : (first ++ second).length % 4 = 0 := by
      rw [length_append]
      have := encodeString_align hsec
      omega
    have hfirst : readString (first ++ second ++ payload) 0 = .ok (address, first.length) := by
      have hnil : ([] : Bytes).length % 4 = 0 := rfl
      have : readString ([] ++ first ++ (second ++ payload)) ([] : Bytes).length = .ok (address, ([] : Bytes).length + first.length) :=
        readString_encode hnil hf
      rwa [nil_append, ← append_assoc, length_nil, Nat.zero_add] at this
    have hsecond : readString (first ++ second ++ payload) first.length = .ok (',' :: tags, (first ++ second).length) := by
      rw [length_append]
      exact readString_encode halign hsec
    rw [decodeMessage, if_neg hpos, if_neg hlen, ok_bind hfirst]
    dsimp only
    have htags : tagsOf (',' :: tags) = .ok tags := rfl
    rw [ok_bind hv, ok_bind hsecond]
    rw [ok_bind htags, ok_bind (decodeArgs_encode hs ha halign')]
    rfl

/-! ## Bundles -/

/-- A packet of messages that were encoded, in bundles that are nested at most so deep; with the messages that arrive. -/
inductive Packs : ℕ → Bytes → List (OscMessage F) → Prop
  | message {n : ℕ} {address : Text} {args : List (Arg F)} {packet : Bytes} :
      (∀ a ∈ args, Sendable a) → encodeMessage address args = .ok packet → Packs n packet [⟨address, args.map sent⟩]
  | bundle {n : ℕ} {timetag : Bytes} {elements : List (Bytes × List (OscMessage F))} :
      timetag.length = 8 → (∀ e ∈ elements, e.1.length < 2 ^ 31) → (∀ e ∈ elements, Packs n e.1 e.2) →
      Packs (n + 1) (bundleHeader ++ timetag ++ elements.flatMap fun e => packInt e.1.length ++ e.1) (elements.flatMap Prod.snd)

/-- A message is no bundle: its address begins with a slash. -/
theorem not_bundle (h : encodeMessage address args = .ok packet) :
    ¬ bundleHeader <+: packet := by
  obtain ⟨⟨⟩, hv, h⟩ := bind_ok h
  obtain ⟨⟨tags, payload⟩, -, h⟩ := bind_ok h
  obtain ⟨first, hf, h⟩ := bind_ok h
  obtain ⟨second, -, h⟩ := bind_ok h
  dsimp only at h
  split at h
  · cases h
  · cases h
    obtain ⟨-, rfl⟩ := encodeString_ok hf
    obtain ⟨zeros, hz⟩ := pad4_eq (Wire.Utf8.encode address ++ [0])
    have hhead : address.head? = some '/' := by
      by_contra hno
      rw [validateAddress, if_pos hno] at hv
      cases hv
    obtain ⟨rest, rfl⟩ : ∃ rest, address = '/' :: rest := by
      cases address with
      | nil => cases hhead
      | cons c rest =>
        cases hhead
        exact ⟨rest, rfl⟩
    rintro ⟨t, ht⟩
    have hfirst := congrArg List.head? ht
    rw [hz] at hfirst
    exact absurd hfirst (by simp [bundleHeader, Wire.Utf8.encode, Wire.Utf8.encodeChar])

/-- A longer packet in hand is fuel for its parts. -/
theorem decodeElements_written {elements : List (Bytes × List (OscMessage F))}
    (hsize : ∀ e ∈ elements, e.1.length < 2 ^ 31)
    (hread : ∀ e ∈ elements, ∀ k, e.1.length < k → decodeAt k (depth + 1) e.1 = .ok e.2)
    (hfuel : (elements.flatMap fun e => packInt e.1.length ++ e.1).length < fuel) :
    decodeElements fuel depth (before ++ elements.flatMap fun e => packInt e.1.length ++ e.1) before.length =
      .ok (elements.flatMap Prod.snd) := by
  induction elements generalizing fuel before with
  | nil =>
    obtain ⟨fuel, rfl⟩ : ∃ k, fuel = k + 1 := ⟨fuel - 1, by simp at hfuel; omega⟩
    rw [flatMap_nil, append_nil, decodeElements, if_neg (Nat.lt_irrefl _)]
    rfl
  | cons e elements ih =>
    obtain ⟨fuel, rfl⟩ : ∃ k, fuel = k + 1 := ⟨fuel - 1, by omega⟩
    rw [flatMap_cons] at hfuel ⊢
    rw [length_append, length_append, length_packInt] at hfuel
    have hlt := hsize e mem_cons_self
    have hbytes : signed 32 (number (packInt e.1.length)) = e.1.length := signed_packInt ⟨by omega, by omega⟩
    have hrest := @ih fuel (before ++ (packInt e.1.length ++ e.1)) (fun x hx => hsize x (mem_cons_of_mem _ hx))
      (fun x hx => hread x (mem_cons_of_mem _ hx)) (show _ < fuel by omega)
    rw [append_assoc, length_append, length_append, length_packInt] at hrest
    have hlen : ∀ rest : Bytes, (before ++ (packInt e.1.length ++ e.1 ++ rest)).length =
        before.length + (4 + e.1.length + rest.length) := by
      intro rest
      rw [length_append, length_append, length_append, length_packInt]
    have htake : ∀ rest : Bytes, ((before ++ (packInt e.1.length ++ e.1 ++ rest)).drop before.length).take 4 = packInt e.1.length := by
      intro rest
      rw [drop_left, append_assoc, ← length_packInt (e.1.length : ℤ), take_left]
    have hdrop : ∀ rest : Bytes, ((before ++ (packInt e.1.length ++ e.1 ++ rest)).drop (before.length + 4)).take e.1.length = e.1 := by
      intro rest
      have hb : before.length + 4 = (before ++ packInt e.1.length).length := by rw [length_append, length_packInt]
      rw [append_assoc, ← append_assoc before, hb, drop_left, take_left]
    rw [decodeElements, hlen, if_pos (by omega), if_neg (by omega), htake, hbytes]
    rw [if_neg (by omega), Int.toNat_natCast, hdrop, ok_bind (hread e mem_cons_self fuel (by omega)),
      Nat.add_assoc, ok_bind hrest]
    rfl

/-- A packet of encoded messages is read back as these, in their order. -/
theorem decodeAt_packs {messages : List (OscMessage F)} (h : Packs n packet messages)
    (hdepth : depth + n ≤ 4) (hfuel : packet.length < fuel) : decodeAt fuel depth packet = .ok messages := by
  induction h generalizing depth fuel with
  | message hs he =>
    obtain ⟨fuel, rfl⟩ : ∃ k, fuel = k + 1 := ⟨fuel - 1, by omega⟩
    rw [decodeAt, if_neg (not_bundle he), ok_bind (decodeMessage_encode hs he)]
    rfl
  | @bundle n timetag elements ht hsize _ ih =>
    obtain ⟨fuel, rfl⟩ : ∃ k, fuel = k + 1 := ⟨fuel - 1, by omega⟩
    have hoff : bundleHeader.length + 8 = (bundleHeader ++ timetag).length := by rw [length_append, ht]
    rw [length_append] at hfuel
    rw [decodeAt, if_pos ⟨timetag ++ _, (append_assoc _ _ _).symm⟩, if_neg (by omega), hoff]
    exact decodeElements_written hsize (fun e he k hk => ih e he (by omega) hk) (by omega)

/-! ## Termination -/

/-- A computation that does not run out of fuel. -/
def Ends {α : Type} (x : Except Failure α) : Prop := x ≠ .error .outOfFuel

theorem Ends.bind {α β : Type} {x : Except Failure α} {f : α → Except Failure β} (hx : Ends x) (hf : ∀ a, x = .ok a → Ends (f a)) :
    Ends (x >>= f) := by
  cases x with
  | ok a => exact hf a rfl
  | error e =>
    intro h
    refine hx ?_
    cases h
    rfl

theorem ends_readString : Ends (readString data offset) := by
  unfold readString
  dsimp only
  split_ifs
  · exact nofun
  · split
    · exact nofun
    · exact nofun

theorem ends_readBytes (size : ℕ) : Ends (readBytes data offset size) := by
  unfold readBytes
  split_ifs
  · exact nofun
  · exact nofun

theorem ends_validateAddress (address : Text) : Ends (validateAddress address) := by
  unfold validateAddress
  split_ifs
  · exact nofun
  · exact nofun
  · exact nofun
  · exact nofun

theorem ends_tagsOf (tags : Text) : Ends (tagsOf tags) := by
  unfold tagsOf
  split
  · exact nofun
  · exact nofun

theorem ends_decodeArg (tag : Char) : Ends (decodeArg (F := F) data offset tag) := by
  have hbytes : ∀ (size : ℕ) (f : Bytes → Except Failure (Arg F × ℕ)), (∀ b, Ends (f b)) →
      Ends (readBytes data offset size >>= f) := fun size f hf => (ends_readBytes data offset size).bind fun b _ => hf b
  unfold decodeArg
  split
  · exact hbytes 4 _ fun _ => nofun
  · exact hbytes 4 _ fun _ => nofun
  · exact (ends_readString data offset).bind fun _ _ => nofun
  · exact (ends_readString data offset).bind fun _ _ => nofun
  · refine hbytes 4 _ fun b => ?_
    dsimp only
    split_ifs
    · exact nofun
    · exact nofun
  · exact nofun
  · exact nofun
  · exact nofun
  · exact hbytes 8 _ fun _ => nofun
  · exact hbytes 8 _ fun _ => nofun
  · refine hbytes 4 _ fun b => ?_
    dsimp only
    split_ifs
    · exact nofun
    · exact nofun
  · exact hbytes 4 _ fun _ => nofun
  · exact hbytes 4 _ fun _ => nofun
  · exact hbytes 8 _ fun _ => nofun
  · exact nofun

theorem ends_decodeArgs (tags : Text) : Ends (decodeArgs (F := F) data offset tags) := by
  induction tags generalizing offset with
  | nil => exact nofun
  | cons tag tags ih => exact (ends_decodeArg data offset tag).bind fun a _ => (ih a.2).bind fun _ _ => nofun

theorem ends_decodeMessage : Ends (decodeMessage (F := F) data) := by
  unfold decodeMessage
  split_ifs
  · exact nofun
  · exact nofun
  · refine (ends_readString data 0).bind fun first _ => (ends_validateAddress _).bind fun _ _ => ?_
    refine (ends_readString data _).bind fun second _ => (ends_tagsOf _).bind fun tags _ => ?_
    exact (ends_decodeArgs data _ tags).bind fun _ _ => nofun

/-- The length of what is left is fuel enough. -/
theorem decode_fuel (fuel : ℕ) :
    (∀ depth data, data.length < fuel → Ends (decodeAt (F := F) fuel depth data)) ∧
    ∀ depth data offset, data.length - offset < fuel → Ends (decodeElements (F := F) fuel depth data offset) := by
  induction fuel with
  | zero => exact ⟨fun _ _ h => absurd h (Nat.not_lt_zero _), fun _ _ _ h => absurd h (Nat.not_lt_zero _)⟩
  | succ fuel ih =>
    constructor
    · intro depth data h
      rw [decodeAt]
      split_ifs with hb hd
      · exact nofun
      · have hlen : bundleHeader.length ≤ data.length := hb.length_le
        have h8 : bundleHeader.length = 8 := rfl
        exact ih.2 depth data _ (by omega)
      · exact (ends_decodeMessage data).bind fun _ _ => nofun
    · intro depth data offset h
      rw [decodeElements]
      split_ifs with ho h4
      · exact nofun
      · dsimp only
        split_ifs with hsize
        · exact nofun
        · refine (ih.1 _ _ ?_).bind fun _ _ => (ih.2 _ _ _ ?_).bind fun _ _ => nofun
          · rw [length_take, length_drop]
            omega
          · omega
      · exact nofun

end Docich.Osc.Codec
