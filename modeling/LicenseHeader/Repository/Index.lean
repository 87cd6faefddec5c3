import LicenseHeader.Path.Basic

/-!
# The index of a repository

The index lists the tracked files. Its file starts with a signature, a version and the number of
entries; of an entry only its mode and its path matter here. In the versions 2 and 3 a path ends
with a zero octet, and further zero octets fill the entry up to a multiple of eight octets. In
version 4 a path is written by what it changes about the path in front of it, and nothing is filled
up. Behind the entries there may be extensions, and at the end of the file stands a digest; what
they hold is not looked at.
-/

namespace LicenseHeader.Repository

structure IndexEntry where
  /-- The octets of the path, seen from the root of the working tree. -/
  path : List UInt8
  /-- The kind of the entry and its permissions. -/
  mode : Nat
deriving DecidableEq, Repr

namespace IndexEntry

def fileMode : Nat := 0o100644

/-- The mode of an entry that stands for another repository. -/
def gitlinkMode : Nat := 0o160000

def isGitlink (e : IndexEntry) : Bool :=
  e.mode == gitlinkMode

/-- The path as a text, if it is one. -/
def path? (e : IndexEntry) : Option Path :=
  (String.fromUTF8? ⟨e.path.toArray⟩).map Path.mk

end IndexEntry

def pathOctets (p : Path) : List UInt8 :=
  p.text.toUTF8.data.toList

/-- The entries of an index in the order of their paths. -/
abbrev Index := List IndexEntry

namespace Index

/-- The index with an entry; it replaces the entry with the same path. -/
def insert (index : Index) (e : IndexEntry) : Index :=
  (e :: index.filter fun known => known.path != e.path).mergeSort fun a b => a.path ≤ b.path

/-! ### The file format -/

/-- A number in `width` octets, the most significant one first. -/
def octets (width n : Nat) : List UInt8 :=
  (List.range width).reverse.map fun place => (n / Nat.pow 256 place).toUInt8

/-- The number that some octets write. -/
def number (bytes : List UInt8) : Nat :=
  bytes.foldl (fun n byte => 256 * n + byte.toNat) 0

/-- The first `n` octets and what follows them. -/
def take? (n : Nat) (bytes : List UInt8) : Option (List UInt8 × List UInt8) :=
  let field := bytes.take n
  if field.length = n then some (field, bytes.drop n) else none

def signature : List UInt8 :=
  "DIRC".toUTF8.data.toList

/-- The number of octets of the digest at the end. -/
def digestSize : Nat := 20

/-- The number of octets in front of the mode of an entry: two times and the place of the file. -/
def placeSize : Nat := 24

/-- The number of octets between the mode and the flags of an entry: owner, size and digest. -/
def ownerSize : Nat := 32

def extendedFlag : Nat := 0x4000

/-- How many zero octets follow a path, if the entry has so many octets up to the end of the path.
-/
def padding (size : Nat) : Nat :=
  8 - size % 8

/-- The number at the start of some octets, of which each but the last one has its highest bit set,
and what follows it; `high` is what the octets in front of these have added up to. -/
def variableNumber? (high : Nat) : List UInt8 → Option (Nat × List UInt8)
  | [] => none
  | byte :: rest =>
    let n := high + byte.toNat % 128
    if byte.toNat < 128 then some (n, rest) else variableNumber? ((n + 1) * 128) rest

/-- The path of an entry that follows one with the path `last`, and what stands behind it. The
fields in front of it have `size` octets. -/
def decodePath? (version size : Nat) (last bytes : List UInt8) :
    Option (List UInt8 × List UInt8) := do
  if version = 4 then
    let (left, rest) ← variableNumber? 0 bytes
    if last.length < left then none
    else
      let added := rest.takeWhile (· != 0)
      let (_, rest) ← take? (added.length + 1) rest
      return (last.take (last.length - left) ++ added, rest)
  else
    let path := bytes.takeWhile (· != 0)
    let (_, rest) ← take? (path.length + padding (size + path.length)) bytes
    return (path, rest)

/-- An entry at the start of some octets, which follows one with the path `last`, and what stands
behind it. -/
def decodeEntry? (version : Nat) (last bytes : List UInt8) :
    Option (IndexEntry × List UInt8) := do
  let (_, rest) ← take? placeSize bytes
  let (mode, rest) ← take? 4 rest
  let (_, rest) ← take? ownerSize rest
  let (flags, rest) ← take? 2 rest
  let more := if number flags &&& extendedFlag ≠ 0 then 2 else 0
  let (_, rest) ← take? more rest
  let (path, rest) ← decodePath? version (placeSize + 4 + ownerSize + 2 + more) last rest
  return ({ path, mode := number mode }, rest)

/-- So many entries at the start of some octets, and what follows them. -/
def decodeEntries? (version : Nat) (last : List UInt8) :
    Nat → List UInt8 → Option (Index × List UInt8)
  | 0, bytes => some ([], bytes)
  | n + 1, bytes => do
    let (e, rest) ← decodeEntry? version last bytes
    let (es, rest) ← decodeEntries? version e.path n rest
    return (e :: es, rest)

/-- Whether some octets are extensions and the digest. Only extensions with a capital letter in
front may be passed over. -/
def isEnd (bytes : List UInt8) : Bool :=
  if bytes.length ≤ digestSize then bytes.length == digestSize
  else
    let size := 8 + number ((bytes.drop 4).take 4)
    bytes.head?.any (fun byte => 'A'.toNat ≤ byte.toNat && byte.toNat ≤ 'Z'.toNat)
      && size + digestSize ≤ bytes.length && isEnd (bytes.drop size)
termination_by bytes.length
decreasing_by
  rw [List.length_drop]
  omega

/-- The index that an index file of version 2, 3 or 4 holds. -/
def decode? (bytes : List UInt8) : Option Index := do
  let (start, rest) ← take? 4 bytes
  let (version, rest) ← take? 4 rest
  let (count, rest) ← take? 4 rest
  if start ≠ signature ∨ number version ∉ [2, 3, 4] then none
  else
    let (index, rest) ← decodeEntries? (number version) [] (number count) rest
    if isEnd rest then return index else none

/-- An entry in the form of version 2. Only mode, path and the length of the path are set. -/
def encodeEntry (e : IndexEntry) : List UInt8 :=
  octets placeSize 0 ++ octets 4 e.mode ++ octets ownerSize 0 ++ octets 2 (min e.path.length 0xFFF)
    ++ e.path ++ octets (padding (placeSize + 4 + ownerSize + 2 + e.path.length)) 0

/-- The index file, in the form of version 2, that holds an index. -/
def encode (index : Index) : List UInt8 :=
  signature ++ octets 4 2 ++ octets 4 index.length ++ index.flatMap encodeEntry
    ++ octets digestSize 0

end Index

end LicenseHeader.Repository
