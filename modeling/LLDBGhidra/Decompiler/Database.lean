import LLDBGhidra.Decompiler.Address
import LLDBGhidra.Decompiler.Number
import LLDBGhidra.Library.Effect

/-
  Symbols and the symbol table of a scope (`database.hh`,
  `database.cc`).

  Main declarations:
    * `Symbol`
    * `SymbolEntry`
    * `ScopeInternal`
    * `ScopeInternal.addFunction`
    * `ScopeInternal.addSymbol`
    * `ScopeInternal.clear`
    * `ScopeInternal.findAddr`
    * `ScopeInternal.findContainer`
    * `ScopeInternal.findFunction`
-/

------------------------------------------------------------
-- Symbols and Their Entries
------------------------------------------------------------

namespace LLDBGhidra

/-
  A function symbol consumes a fixed number of bytes of its
  entry; a data symbol has a type with a size.
-/
inductive SymbolKind where
| function : (consumeSize : BitVec 32) → SymbolKind
| data : (typeSize : BitVec 32) → SymbolKind
deriving DecidableEq, Repr

/-
  A symbol.  Its display name is its name throughout, and
  `addrtied` is the only one of its flags that lookups read.
-/
structure Symbol where
  symbolId : Nat
  name : String
  nameDedup : Nat
  kind : SymbolKind
  addrtied : Bool
deriving DecidableEq, Repr

namespace Symbol

/- The size of the data type; a function has the type `code`. -/
def typeSize
    (symbol : Symbol) : Int :=
  match symbol.kind with
  | .function _ => 1
  | .data size => size.toInt

def getBytesConsumed
    (symbol : Symbol) : Int :=
  match symbol.kind with
  | .function consumeSize => consumeSize.toInt
  | .data size => size.toInt

/- The dynamic cast to `FunctionSymbol` succeeds. -/
def isFunction
    (symbol : Symbol) : Bool :=
  match symbol.kind with
  | .function _ => true
  | .data _ => false

end Symbol

/- A storage location of a symbol, or of a piece of it. -/
structure SymbolEntry where
  symbol : Symbol
  addr : Address
  offset : Int
  size : Int
  uselimit : RangeList
deriving DecidableEq, Repr

/- Where an entry stands among others over the same bytes. -/
structure EntrySubsort where
  useindex : Nat
  useoffset : Nat
deriving DecidableEq, Repr

namespace EntrySubsort

def key
    (subsort : EntrySubsort) : Nat ×ₗ Nat :=
  toLex (subsort.useindex, subsort.useoffset)

theorem key_injective :
    Function.Injective key := by
  intro left right hKey
  cases left
  cases right
  simp only [key, EmbeddingLike.apply_eq_iff_eq,
    Prod.mk.injEq] at hKey
  simp [hKey]

instance : LinearOrder EntrySubsort :=
  LinearOrder.lift' key key_injective

theorem le_iff
    {left right : EntrySubsort} :
    left ≤ right ↔
      left.useindex < right.useindex ∨
        left.useindex = right.useindex ∧
          left.useoffset ≤ right.useoffset := by
  change left.key ≤ right.key ↔ _
  simp [key, Prod.Lex.toLex_le_toLex]

/-
  The earliest and the latest subsort.  The source leaves the
  offset of the latest one unset; no space has its index.
-/
instance : SubsortType EntrySubsort where
  subsort := fun val => if val then ⟨0xffff, 0⟩ else ⟨0, 0⟩
  subsort_false_le := by
    intro value
    rw [le_iff]
    simp only [Bool.false_eq_true, if_false]
    omega

/- The subsort of a sub-sorting address. -/
def ofAddress
    (addr : Address) : EntrySubsort :=
  ⟨addr.base.getD 0, addr.offset.toNat⟩

end EntrySubsort

namespace SymbolEntry

/- Initialize an entry over the offsets `a` to `b`. -/
def init
    (symbol : Symbol)
    (space : SpaceId)
    (offset : Int)
    (uselimit : RangeList)
    (a b : BitVec 64) : SymbolEntry :=
  { symbol := symbol
    addr := Address.ofSpace space a
    offset := offset
    size := int4 (b - a + 1).toNat
    uselimit := uselimit }

def getFirst
    (entry : SymbolEntry) : BitVec 64 :=
  entry.addr.offset

def getLast
    (entry : SymbolEntry) : BitVec 64 :=
  entry.addr.offset + BitVec.ofInt 64 entry.size - 1

def isAddrTied
    (entry : SymbolEntry) : Bool :=
  entry.symbol.addrtied

/- May the storage be used from the given code address? -/
def inUse
    (entry : SymbolEntry)
    (usepoint : Address) : Bool :=
  if entry.isAddrTied then
    true
  else if usepoint.isInvalid then
    false
  else
    entry.uselimit.inRange usepoint 1

/-
  An entry that is not address tied is sorted by its first use
  range.  It always has one: `addMap` ties a symbol that comes
  without a range.
-/
def getSubsort
    (entry : SymbolEntry) : EntrySubsort :=
  if entry.isAddrTied then
    SubsortType.subsort false
  else
    match entry.uselimit.getFirstRange with
    | none => SubsortType.subsort false
    | some range => ⟨range.spc, range.first.toNat⟩

instance : RecordType SymbolEntry EntrySubsort where
  getFirst := fun entry => entry.getFirst.toNat
  getLast := fun entry => entry.getLast.toNat
  getSubsort := getSubsort

end SymbolEntry

/- The entries of one address space. -/
abbrev EntryMap :=
  RangeMap SymbolEntry EntrySubsort

end LLDBGhidra

------------------------------------------------------------
-- Undefined Names
------------------------------------------------------------

namespace LLDBGhidra

/- Is this a name made by `buildUndefinedName`? -/
def isUndefinedName
    (name : String) : Bool :=
  name.utf8ByteSize = 15 &&
    name.toList.take 7 = "$$undef".toList

/-
  Read an unsigned 32-bit number in hexadecimal as a stream
  does: blanks, a sign and a prefix are accepted, and zero is
  the result where no digit follows.
-/
def readHex
    (text : List Char) : Nat :=
  let text := text.dropWhile isSpace
  let negative := text.head? = some '-'
  let unsigned :=
    match text with
    | '-' :: rest => rest
    | '+' :: rest => rest
    | _ => text
  let digits :=
    match unsigned with
    | '0' :: 'x' :: rest => rest
    | '0' :: 'X' :: rest => rest
    | _ => unsigned
  let value :=
    ((digits.map hexDigit?).takeWhile Option.isSome).foldl
      (fun total digit => total * 16 + digit.getD 0) 0
  if negative then
    (2 ^ 32 - value) % 2 ^ 32
  else
    value

/- Eight hexadecimal digits, padded with zeros. -/
def hexDigits
    (value : Nat) : String :=
  String.ofList
    ((List.range 8).map (fun index =>
      let digit := value / 16 ^ (7 - index) % 16
      if digit < 10 then
        Char.ofNat ('0'.toNat + digit)
      else
        Char.ofNat ('a'.toNat + digit - 10)))

end LLDBGhidra

------------------------------------------------------------
-- The Scope
------------------------------------------------------------

namespace LLDBGhidra

/- The pieces of a join address; each of them has a size. -/
structure JoinRecord where
  pieces : List VarnodeData
  sized : ∀ piece ∈ pieces, 0 < piece.size.toInt

/-
  What a scope reads from the architecture: its spaces, the
  records of its join addresses, and the size of function
  symbols, which is the instruction alignment.
-/
structure Glb where
  space : SpaceId → AddrSpace
  findJoin : BitVec 64 → Option JoinRecord
  defaultCodeSpace : SpaceId
  codeSpaceUnjoined : (space defaultCodeSpace).type ≠ .join
  minFuncsymbolSize : BitVec 32
  minFuncsymbolSized : 0 < minFuncsymbolSize.toInt

/-
  The tables of a scope.  The storage locations of a symbol
  are kept by its id, in the order in which they were mapped.
-/
structure ScopeInternal where
  nametree : List Symbol
  maptable : SpaceId → Option EntryMap
  mapentry : Nat → List SymbolEntry
  dynamicentry : List SymbolEntry
  nextUniqueId : Nat

/- The part of a function that lookups construct. -/
structure Funcdata where
  name : String
  baseaddr : Address
  symbol : Symbol
deriving DecidableEq, Repr

namespace ScopeInternal

/- A computation over the tables of a scope. -/
abbrev M :=
  Effect Exn ScopeInternal

/- An empty scope. -/
def empty : ScopeInternal :=
  { nametree := []
    maptable := fun _ => none
    mapentry := fun _ => []
    dynamicentry := []
    nextUniqueId := 0 }

/- `Symbol::ID_BASE`. -/
def idBase : Nat :=
  0x4000000000000000

/- Symbols are ordered by name and duplicate number. -/
def nameLt
    (left right : Symbol) : Bool :=
  left.name < right.name ||
    (left.name == right.name &&
      left.nameDedup < right.nameDedup)

/- A fresh name for a symbol that comes without one. -/
def buildUndefinedName
    (scope : ScopeInternal) : Except Exn String :=
  let testsym : Symbol := ⟨0, "$$undefz", 0, .data 0, false⟩
  let lower :=
    scope.nametree.takeWhile (fun symbol => nameLt symbol testsym)
  let candidate :=
    match lower.getLast? with
    | some symbol => some symbol
    | none => scope.nametree.head?
  match candidate with
  | none => .ok "$$undef00000000"
  | some symbol =>
      if isUndefinedName symbol.name then
        let uniq :=
          readHex ((symbol.name.toList.drop 7).take 8)
        if uniq = 0xffffffff then
          .error (.lowlevelError .lowlevel
            "Error creating undefined name")
        else
          .ok ("$$undef" ++ hexDigits (uniq + 1))
      else
        .ok "$$undef00000000"

/-
  Insert a symbol by name.  A symbol whose name is taken gets
  the number after the last one with this name; the 32-bit
  number is not exhausted before 2^32 symbols share a name.
-/
def insertNameTree
    (symbol : Symbol)
    (scope : ScopeInternal) : Symbol × ScopeInternal :=
  let sameName :=
    scope.nametree.filter (fun other => other.name = symbol.name)
  let taken := sameName.any (fun other => other.nameDedup = 0)
  let dedup :=
    match sameName.getLast? with
    | none => 0
    | some last => if taken then last.nameDedup + 1 else 0
  let symbol' := { symbol with nameDedup := dedup }
  let before := fun other => nameLt other symbol'
  (symbol',
    { scope with
      nametree :=
        scope.nametree.takeWhile before ++
          symbol' :: scope.nametree.dropWhile before })

/- The next id is taken, whatever becomes of the symbol. -/
def takeId
    (scope : ScopeInternal) : ScopeInternal :=
  { scope with nextUniqueId := scope.nextUniqueId + 1 }

/- A symbol before it is filed. -/
def newSymbol
    (nextUniqueId : Nat)
    (name : String)
    (kind : SymbolKind) : Symbol :=
  { symbolId := idBase + nextUniqueId
    name := name
    nameDedup := 0
    kind := kind
    addrtied := false }

/- Give a new symbol an id and a name, and file it. -/
def addSymbolInternal
    (name : String)
    (kind : SymbolKind) : M Symbol := do
  let nextUniqueId ← Effect.gets ScopeInternal.nextUniqueId
  Effect.modify takeId
  let finalName ←
    if name = "" then
      Effect.query buildUndefinedName
    else
      pure name
  let symbol := newSymbol nextUniqueId finalName kind
  if symbol.typeSize < 1 then
    Effect.throw (.lowlevelError .lowlevel
      (finalName ++ " symbol created with zero size type"))
  else do
    let filed ← Effect.gets (insertNameTree symbol)
    Effect.modify (fun _ => filed.2)
    pure filed.1

/- Map a symbol to `sz` bytes from the address. -/
def addMapInternal
    (glb : Glb)
    (symbol : Symbol)
    (space : SpaceId)
    (first : BitVec 64)
    (off sz : Int)
    (uselim : RangeList)
    (scope : ScopeInternal) : ScopeInternal :=
  let last :=
    (glb.space space).wrapOffset
      (first + BitVec.ofInt 64 (sz - 1))
  let rangemap := (scope.maptable space).getD ⟨[]⟩
  let entry :=
    SymbolEntry.init symbol space off uselim first last
  { scope with
    maptable :=
      Function.update scope.maptable space
        (some (rangemap.insert entry first.toNat last.toNat))
    mapentry :=
      Function.update scope.mapentry symbol.symbolId
        (scope.mapentry symbol.symbolId ++ [entry]) }

/- Map the pieces of a join address, one after the other. -/
def addPieces
    (glb : Glb)
    (symbol : Symbol)
    (uselim : RangeList) :
    Nat → List VarnodeData → ScopeInternal → ScopeInternal
  | _, [], scope => scope
  | off, piece :: rest, scope =>
      addPieces glb symbol uselim (off + piece.size.toNat) rest
        (addMapInternal glb symbol piece.space piece.offset
          (int4 off) piece.size.toInt uselim scope)

/- The address tie is recorded with the filed symbol, too. -/
def setAddrtied
    (symbol : Symbol)
    (scope : ScopeInternal) : ScopeInternal :=
  { scope with
    nametree :=
      scope.nametree.map (fun other =>
        if other.symbolId = symbol.symbolId then
          { other with addrtied := true }
        else
          other) }

/- Map a filed symbol; an invalid address maps it by hash. -/
def addMap
    (glb : Glb)
    (symbol : Symbol)
    (addr : Address)
    (uselimit : RangeList) : M Unit :=
  let consumeSize := symbol.getBytesConsumed
  match addr.base with
  | none =>
      let entry : SymbolEntry :=
        ⟨symbol, Address.invalid, 0, consumeSize, uselimit⟩
      Effect.modify (fun scope =>
        { scope with
          dynamicentry := scope.dynamicentry ++ [entry]
          mapentry :=
            Function.update scope.mapentry symbol.symbolId
              (scope.mapentry symbol.symbolId ++ [entry]) })
  | some space => do
      let unlimited := uselimit.tree.isEmpty
      let tied :=
        if unlimited then
          { symbol with addrtied := true }
        else
          symbol
      Effect.modify (fun scope =>
        addMapInternal glb tied space addr.offset 0 consumeSize
          uselimit
          (if unlimited then setAddrtied symbol scope else scope))
      if (glb.space space).type = .join then
        match glb.findJoin addr.offset with
        | none =>
            Effect.throw (.lowlevelError .lowlevel
              "Unlinked join address")
        | some record =>
            Effect.modify (addPieces glb tied uselimit 0
              (if (glb.space space).bigEndian then
                record.pieces
              else
                record.pieces.reverse))
      else
        pure ()

/- Map a symbol for the code from `usepoint` on, or for all. -/
def addMapPoint
    (glb : Glb)
    (symbol : Symbol)
    (addr usepoint : Address) : M Unit :=
  addMap glb symbol addr
    (match usepoint.base with
    | none => RangeList.empty
    | some space =>
        RangeList.empty.insertRange space
          usepoint.offset usepoint.offset)

/- Add a data symbol; the size is that of its stripped type. -/
def addSymbol
    (glb : Glb)
    (name : String)
    (typeSize : BitVec 32)
    (addr usepoint : Address) : M Unit := do
  let symbol ← addSymbolInternal name (.data typeSize)
  addMapPoint glb symbol addr usepoint

/-
  Add a function symbol.  An object that it overlaps is only
  reported on the message stream.
-/
def addFunction
    (glb : Glb)
    (addr : Address)
    (name : String) : M Symbol := do
  let symbol ←
    addSymbolInternal name (.function glb.minFuncsymbolSize)
  addMapPoint glb symbol addr Address.invalid
  pure symbol

/- Erase an entry from the table it was mapped in. -/
def eraseEntry
    (scope : ScopeInternal)
    (entry : SymbolEntry) : Option ScopeInternal :=
  match entry.addr.base with
  | none =>
      some { scope with
        dynamicentry := scope.dynamicentry.erase entry }
  | some space => do
      let rangemap ← scope.maptable space
      let erased ← rangemap.erase entry
      some { scope with
        maptable :=
          Function.update scope.maptable space (some erased) }

/-
  Erase the storage locations of a symbol.  Locations that are
  equal in everything are one record here, and erased once.
-/
def removeSymbolMappings
    (symbol : Symbol)
    (scope : ScopeInternal) : Option ScopeInternal := do
  let erased ←
    (scope.mapentry symbol.symbolId).dedup.foldlM eraseEntry
      scope
  some { erased with
    mapentry :=
      Function.update erased.mapentry symbol.symbolId [] }

def removeSymbol
    (scope : ScopeInternal)
    (symbol : Symbol) : Option ScopeInternal := do
  let unmapped ← removeSymbolMappings symbol scope
  some { unmapped with
    nametree :=
      unmapped.nametree.filter (fun other =>
        other.symbolId ≠ symbol.symbolId) }

/-
  Remove every symbol and start the numbering again.  None
  stands for the undefined result of erasing an entry.
-/
def clear
    (scope : ScopeInternal) : Option ScopeInternal := do
  let cleared ← scope.nametree.foldlM removeSymbol scope
  some { cleared with nextUniqueId := 0 }

end ScopeInternal

end LLDBGhidra

------------------------------------------------------------
-- Lookups
------------------------------------------------------------

namespace LLDBGhidra

namespace ScopeInternal

/-
  The entries over an address, in order.  A valid use point
  limits them to those that may be in use there.
-/
def entriesAt
    (scope : ScopeInternal)
    (addr : Address)
    (sub2 : EntrySubsort) : List SymbolEntry :=
  match addr.base.bind scope.maptable with
  | none => []
  | some rangemap =>
      (rangemap.findBetween addr.offset.toNat
        (SubsortType.subsort false) sub2).map AddrRange.value

/- The last subsort a use point asks for. -/
def lastSubsort
    (usepoint : Address) : EntrySubsort :=
  if usepoint.isInvalid then
    SubsortType.subsort true
  else
    EntrySubsort.ofAddress usepoint

/- The last entry that starts at the address and is in use. -/
def findAddr
    (scope : ScopeInternal)
    (addr usepoint : Address) : Option SymbolEntry :=
  (scope.entriesAt addr (lastSubsort usepoint)).reverse.find?
    (fun entry =>
      entry.addr.offset = addr.offset && entry.inUse usepoint)

/-
  The scan of `findContainer` over the entries, last one first,
  with the best entry so far and its size.
-/
def findContainerLoop
    (stop : BitVec 64)
    (size : Int)
    (usepoint : Address) :
    Option SymbolEntry → Int → List SymbolEntry →
      Option SymbolEntry
  | bestentry, _, [] => bestentry
  | bestentry, oldsize, entry :: rest =>
      if stop ≤ entry.getLast ∧
          (entry.size < oldsize ∨ oldsize = -1) ∧
          entry.inUse usepoint then
        if entry.size = size then
          some entry
        else
          findContainerLoop stop size usepoint (some entry)
            entry.size rest
      else
        findContainerLoop stop size usepoint bestentry
          oldsize rest

/- The smallest entry that contains the range and is in use. -/
def findContainer
    (scope : ScopeInternal)
    (addr : Address)
    (size : Int)
    (usepoint : Address) : Option SymbolEntry :=
  findContainerLoop
    (addr.offset + BitVec.ofInt 64 size - 1) size usepoint
    none (-1)
    (scope.entriesAt addr (lastSubsort usepoint)).reverse

/- The first storage location of a symbol. -/
def getFirstWholeMap
    (scope : ScopeInternal)
    (symbol : Symbol) : Except Exn SymbolEntry :=
  match scope.mapentry symbol.symbolId with
  | [] =>
      .error (.lowlevelError .lowlevel
        ("No mapping for symbol: " ++ symbol.name))
  | entry :: _ => .ok entry

/- The function of a function symbol. -/
def getFunction
    (scope : ScopeInternal)
    (symbol : Symbol) : Except Exn Funcdata := do
  let entry ← scope.getFirstWholeMap symbol
  pure ⟨symbol.name, entry.addr, symbol⟩

/- The function that starts at the address. -/
def findFunction
    (scope : ScopeInternal)
    (addr : Address) : Except Exn (Option Funcdata) :=
  let found :=
    (scope.entriesAt addr (SubsortType.subsort true)).find?
      (fun entry =>
        entry.addr.offset = addr.offset &&
          entry.symbol.isFunction)
  match found with
  | none => pure none
  | some entry => some <$> scope.getFunction entry.symbol

/- The first storage location of a symbol over the address. -/
def getMapEntry
    (scope : ScopeInternal)
    (symbol : Symbol)
    (addr : Address) : Option SymbolEntry :=
  (scope.mapentry symbol.symbolId).find? (fun entry =>
    addr.base = entry.addr.base &&
      entry.addr.offset ≤ addr.offset &&
      int4 (addr.offset - entry.addr.offset).toNat < entry.size)

end ScopeInternal

end LLDBGhidra
