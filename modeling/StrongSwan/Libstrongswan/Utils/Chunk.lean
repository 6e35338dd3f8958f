import Mathlib.Data.List.Basic

/-!
Contract: the keyed hash of `chunk.c`.

`chunk_mac_inc` is SipHash-2-4 over the chunk, with an optional first block `m`;
`chunk_hash_inc` seeds it with the previous hash in both halves of `m` under the
process-wide `hash_key` and keeps the low 32 bits. The key is random
(`chunk_hash_seed`), so it is a parameter of every hash here.

The compression loop takes the chunk eight bytes at a time up to
`end = ptr + len - len % 8`; `siplast` then reads the `len % 8` bytes left.
-/

namespace StrongSwan.Libstrongswan.Utils

/-- The four words of SipHash, `v0` to `v3` of `chunk_mac_inc`. -/
structure SipState where
  v0 : UInt64
  v1 : UInt64
  v2 : UInt64
  v3 : UInt64
deriving DecidableEq, Repr

/-- `sipget`: eight bytes as a little-endian word. -/
def sipget (input : List UInt8) : UInt64 :=
  (List.range 8).foldl (fun v i => v ||| (input.getD i 0).toUInt64 <<< (8 * i).toUInt64) 0

def siprotate (v shift : UInt64) : UInt64 :=
  (v <<< shift) ||| (v >>> (64 - shift))

def sipround (state : SipState) : SipState :=
  let v0 := state.v0 + state.v1
  let v1 := siprotate state.v1 13
  let v1 := v1 ^^^ v0
  let v0 := siprotate v0 32
  let v2 := state.v2 + state.v3
  let v3 := siprotate state.v3 16
  let v3 := v3 ^^^ v2
  let v2 := v2 + v1
  let v1 := siprotate v1 17
  let v1 := v1 ^^^ v2
  let v2 := siprotate v2 32
  let v0 := v0 + v3
  let v3 := siprotate v3 21
  let v3 := v3 ^^^ v0
  ⟨v0, v1, v2, v3⟩

def sipcompress (state : SipState) (m : UInt64) : SipState :=
  let state := sipround (sipround { state with v3 := state.v3 ^^^ m })
  { state with v0 := state.v0 ^^^ m }

-- the fall-through switch on `len & 7` ors in the bytes left, the length's low byte on top
def siplast (len : Nat) (pos : List UInt8) : UInt64 :=
  (List.range (len % 8)).foldl (fun b i => b ||| (pos.getD i 0).toUInt64 <<< (8 * i).toUInt64)
    (len.toUInt64 <<< 56)

/-- The compression loop of `chunk_mac_inc` over the whole eight-byte blocks, with
the bytes it leaves for `siplast`. -/
def sipBlocks (state : SipState) : List UInt8 → SipState × List UInt8
  | b0 :: b1 :: b2 :: b3 :: b4 :: b5 :: b6 :: b7 :: rest =>
      sipBlocks (sipcompress state (sipget [b0, b1, b2, b3, b4, b5, b6, b7])) rest
  | rest => (state, rest)

def chunkMacInc (chunk key : List UInt8) (m : UInt64) : UInt64 :=
  let k0 := sipget key
  let k1 := sipget (key.drop 8)
  let state : SipState := ⟨k0 ^^^ 0x736f6d6570736575, k1 ^^^ 0x646f72616e646f6d,
    k0 ^^^ 0x6c7967656e657261, k1 ^^^ 0x7465646279746573⟩
  let state := if m ≠ 0 then sipcompress state m else state
  let (state, pos) := sipBlocks state chunk
  let state := sipcompress state (siplast chunk.length pos)
  -- finalization with d = 4
  let state := sipround (sipround (sipround (sipround { state with v2 := state.v2 ^^^ 0xff })))
  state.v0 ^^^ state.v1 ^^^ state.v2 ^^^ state.v3

/-- `chunk_hash_inc` under the key `hashKey`: the result goes out through `uint32_t`. -/
def chunkHashInc (hashKey chunk : List UInt8) (hash : UInt32) : UInt32 :=
  (chunkMacInc chunk hashKey ((hash.toUInt64 <<< 32) ||| hash.toUInt64)).toUInt32

/-- `static_key`, the key of `chunk_hash_static`. -/
def staticKey : List UInt8 :=
  [0x00, 0x01, 0x02, 0x03, 0x04, 0x05, 0x06, 0x07, 0x08, 0x09, 0x0a, 0x0b, 0x0c, 0x0d, 0x0e, 0x0f]

-- the first and the sixteenth SipHash-2-4 reference vectors, for the key 00..0f
example : chunkMacInc [] staticKey 0 = 0x726fdb47dd0e0e31 := by decide +kernel

example : chunkMacInc (List.range 15 |>.map Nat.toUInt8) staticKey 0 = 0xa129ca6149be45e5 := by
  decide +kernel

end StrongSwan.Libstrongswan.Utils
