import Mathlib.Data.UInt
import Aura.Tree.Aggregate
import Aura.Tree.Scan

/-!
# A line of atree

`emit_node` writes the line of a node: the connector, the coloured name, the statistics. The owner
and the group are looked up in two tables of fixed size (`id_cache_lookup_uid`, `_gid`), the date in
a cache with one entry (`format_date`). Texts are lists of bytes without the terminator.

* `DisplayEnv` — what the program asks the system.
* `readCaches` — the texts that come out of the caches, and the caches after it.
* `emitNode` — the line and the counters.
-/

namespace Aura

/-- The bytes of a literal. -/
def bytes (s : String) : List UInt8 := s.toList.map fun c => c.toNat.toUInt8

/-- `snprintf` into `bufsz` bytes cuts the text. -/
def snprintfBytes (bufsz : ℕ) (text : List UInt8) : List UInt8 := text.take (bufsz - 1)

/-- `%u` and `%d`. -/
def decimalText (n : ℤ) : List UInt8 := bytes (toString n)

/-! ## Formatting -/

/-- The first loop of `fmt_i64`, which fills `tmp` from the last digit on; 20 are enough. -/
def fmtDigits : ℕ → UInt64 → List UInt8
  | 0, _ => []
  | n + 1, uv => if uv > 0 then (48 + (uv % 10).toUInt8) :: fmtDigits n (uv / 10) else []

/-- `fmt_i64`. -/
def fmtI64 (val : Int64) : List UInt8 :=
  if val = 0 then bytes "0"
  else if val < 0 then bytes "-" ++ (fmtDigits 20 ((-(val + 1)).toUInt64 + 1)).reverse
  else (fmtDigits 20 val.toUInt64).reverse

/-- `fmt_size_human`. -/
def fmtSizeHuman (size unit : UInt64) (suffix : String) : List UInt8 :=
  fmtI64 (size / unit).toInt64 ++ bytes "." ++ [48 + (size % unit * 10 / unit).toUInt8] ++
    bytes suffix

/-- `format_size`: nothing when the buffer could be too short. -/
def formatSize (bufsz : ℕ) (size : UInt64) (raw : Bool) : List UInt8 :=
  if bufsz < 24 then []
  else if raw then fmtI64 size.toInt64
  else if size ≥ 1024 ^ 5 then fmtSizeHuman size (1024 ^ 5) "P"
  else if size ≥ 1024 ^ 4 then fmtSizeHuman size (1024 ^ 4) "T"
  else if size ≥ 1024 ^ 3 then fmtSizeHuman size (1024 ^ 3) "G"
  else if size ≥ 1024 ^ 2 then fmtSizeHuman size (1024 ^ 2) "M"
  else if size ≥ 1024 then fmtSizeHuman size 1024 "K"
  else fmtI64 size.toInt64

/-- `mode & S_IFMT`. -/
def fileType (mode : UInt16) : UInt16 := mode &&& 0o170000

/-- `format_mode`: the type, and three letters for each class, the last of which shows another bit
too. -/
def formatMode (mode : UInt16) : List UInt8 :=
  let has (bit : UInt16) : Bool := mode &&& bit ≠ 0
  let letter (bit : UInt16) (c : String) : List UInt8 := bytes (if has bit then c else "-")
  let last (x s : UInt16) (both one neither : String) : List UInt8 :=
    bytes (if has x then (if has s then both else one) else if has s then neither else "-")
  bytes (if fileType mode = 0o040000 then "d" else if fileType mode = 0o120000 then "l"
    else if fileType mode = 0o060000 then "b" else if fileType mode = 0o020000 then "c"
    else if fileType mode = 0o010000 then "p" else if fileType mode = 0o140000 then "s"
    else "-") ++
  letter 0o400 "r" ++ letter 0o200 "w" ++ last 0o100 0o4000 "s" "x" "S" ++
  letter 0o040 "r" ++ letter 0o020 "w" ++ last 0o010 0o2000 "s" "x" "S" ++
  letter 0o004 "r" ++ letter 0o002 "w" ++ last 0o001 0o1000 "t" "x" "T"

/-! ## Dates -/

def isLeap (year : ℤ) : Bool := decide (year % 4 = 0 ∧ (year % 100 ≠ 0 ∨ year % 400 = 0))

/-- The lengths of the months. -/
def monthDays (leap : Bool) : List ℕ :=
  [31, if leap then 29 else 28, 31, 30, 31, 30, 31, 31, 30, 31, 30, 31]

/-- `struct tm`, as far as it is read. `localtime_r` gives a day that exists. -/
structure Tm where
  /-- Years since 1900. -/
  tmYear : ℤ
  tmMon : ℕ
  tmMday : ℕ
  tmYday : ℕ
  mday_pos : 0 < tmMday
  mday_le : tmMday ≤ (monthDays (isLeap (1900 + tmYear))).getD tmMon 0
  yday_eq : tmYday = ((monthDays (isLeap (1900 + tmYear))).take tmMon).sum + (tmMday - 1)

/-- Two digits. -/
def twoDigits (n : ℕ) : List UInt8 := [48 + (n / 10).toUInt8, 48 + (n % 10).toUInt8]

/-- The text of `"%Y-%m-%d"`. -/
def Tm.isoDate (tm : Tm) : List UInt8 :=
  decimalText (1900 + tm.tmYear) ++ bytes "-" ++ twoDigits (tm.tmMon + 1) ++ bytes "-" ++
    twoDigits tm.tmMday

/-- A buffer of `bufsz` bytes on the stack in which a text has been put. The bytes behind the
terminator are indeterminate. -/
def writeText (bufsz : ℕ) (text : List UInt8) : List (Option UInt8) :=
  text.map some ++ some 0 :: List.replicate (bufsz - text.length - 1) none

/-- `strftime` leaves the buffer undefined when the text does not fit. -/
def strftime (bufsz : ℕ) (tm : Tm) : List (Option UInt8) :=
  if tm.isoDate.length + 1 ≤ bufsz then writeText bufsz tm.isoDate
  else List.replicate bufsz none

/-- What a buffer holds as a text: nothing when the terminator is not reached over bytes that have a
value. -/
def textOf : List (Option UInt8) → Option (List UInt8)
  | [] => none
  | none :: _ => none
  | some b :: l => if b = 0 then some [] else (textOf l).map (b :: ·)

/-- `date_cache_t`. -/
structure DateCache where
  cachedDay : ℤ := 0
  cachedStr : List (Option UInt8) := List.replicate 12 (some 0)
  valid : Bool := false

/-- What the program asks the system. -/
structure DisplayEnv where
  /-- `getpwuid_r` with 1024 bytes, and the name it comes back with. -/
  getpwuid : UInt32 → Option (List UInt8)
  /-- The same for `getgrgid_r`. -/
  getgrgid : UInt32 → Option (List UInt8)
  /-- `localtime_r`. -/
  localtime : Int64 → Option Tm
  strerror : ℤ → List UInt8
  /-- What `strlen` and `memcpy` make of a buffer without a terminator. -/
  unterminated : List (Option UInt8) → List UInt8
  /-- Whether so many bytes can be had. -/
  alloc : ℕ → Bool
  /-- The bytes of memory that has just been had. -/
  fresh : ℕ → UInt8

/-- The key of the cache. -/
def Tm.localDay (tm : Tm) : ℤ := tm.tmYear * 400 + tm.tmYday

/-- `format_date`: the buffer and the cache. -/
def formatDate (env : DisplayEnv) (bufsz : ℕ) (tvSec : Int64) (dc : DateCache) :
    List (Option UInt8) × DateCache :=
  match env.localtime tvSec with
  | none => (writeText bufsz (bytes "----/--/--"), dc)
  | some tm =>
    if dc.valid && dc.cachedDay = tm.localDay then
      (dc.cachedStr.take 11 ++ List.replicate (bufsz - 11) none, dc)
    else
      let buf := strftime bufsz tm
      (buf, { cachedDay := tm.localDay, cachedStr := buf.take 11 ++ dc.cachedStr.drop 11,
              valid := true })

/-! ## Names -/

/-- `ID_CACHE_SIZE`. -/
def ID_CACHE_SIZE : ℕ := 128

/-- `id_cache_t`: the entries that are valid. -/
abbrev IdCache : Type := ℕ → Option (UInt32 × List UInt8)

/-- The text of an entry that is filled in. -/
def idName (name : UInt32 → Option (List UInt8)) (id : UInt32) : List UInt8 :=
  snprintfBytes 32 ((name id).getD (decimalText id.toNat))

/-- The text when the cache is full. -/
def idFallback (id : UInt32) : List UInt8 := snprintfBytes 32 (decimalText id.toNat)

/-- The loop of a lookup from probe `i` on, with so many left. -/
def idCacheLoop (name : UInt32 → Option (List UInt8)) (cache : IdCache) (id : UInt32) :
    ℕ → UInt32 → List UInt8 × IdCache
  | 0, _ => (idFallback id, cache)
  | left + 1, i =>
    let mask : UInt32 := UInt32.ofNat ID_CACHE_SIZE - 1
    let e := ((id &&& mask) + i &&& mask).toNat
    match cache e with
    | none => (idName name id, Function.update cache e (some (id, idName name id)))
    | some (id', text) => if id' = id then (text, cache) else idCacheLoop name cache id left (i + 1)

/-- `id_cache_lookup_uid` and `id_cache_lookup_gid`, with their database. -/
def idCacheLookup (name : UInt32 → Option (List UInt8)) (cache : IdCache) (id : UInt32) :
    List UInt8 × IdCache :=
  idCacheLoop name cache id ID_CACHE_SIZE 0

@[inherit_doc idCacheLookup]
def idCacheLookupUid (env : DisplayEnv) : IdCache → UInt32 → List UInt8 × IdCache :=
  idCacheLookup env.getpwuid

@[inherit_doc idCacheLookup]
def idCacheLookupGid (env : DisplayEnv) : IdCache → UInt32 → List UInt8 × IdCache :=
  idCacheLookup env.getgrgid

/-! ## Lines -/

/-- A node of the tree, with what its line shows. -/
structure ListedNode extends TreeNode where
  name : List UInt8
  statErr : ℤ
  stxMode : UInt16
  stxUid : UInt32
  stxGid : UInt32
  /-- `st.stx_mtime.tv_sec`. -/
  tvSec : Int64

/-- `config_t`, as far as it matters to the output. -/
structure DisplayConfig extends ScanConfig where
  longFormat : Bool := false
  rawBytes : Bool := false

/-- `color_scheme_t`. -/
structure ColorScheme where
  enabled : Bool
  dir : List UInt8
  exec : List UInt8
  link : List UInt8
  pipe : List UInt8
  sock : List UInt8
  reset : List UInt8

/-- `color_for_node`. -/
def colorForNode (cs : ColorScheme) (node : ListedNode) : List UInt8 :=
  if !cs.enabled then []
  else if node.isDir then cs.dir
  else if fileType node.stxMode = 0o120000 then cs.link
  else if fileType node.stxMode = 0o010000 then cs.pipe
  else if fileType node.stxMode = 0o140000 then cs.sock
  else if node.stxMode &&& 0o111 ≠ 0 then cs.exec
  else []

/-- `line_buf_t`: `cap` bytes, none of which are there at first. -/
abbrev LineBuf : Type := List UInt8

/-- The loop of `line_buf_ensure`, with as many rounds as it can need. -/
def growCap (needed : ℕ) : ℕ → ℕ → ℕ
  | 0, newcap => newcap
  | n + 1, newcap => if newcap < needed then growCap needed n (newcap * 2) else newcap

/-- `line_buf_ensure`: the buffer, and whether it is long enough. -/
def lineBufEnsure (env : DisplayEnv) (lb : LineBuf) (needed : ℕ) : LineBuf × Bool :=
  if needed ≤ lb.length then (lb, true)
  else
    let newcap := growCap needed needed (if lb.length ≠ 0 then lb.length else 256)
    if env.alloc newcap then
      (lb ++ (List.range' lb.length (newcap - lb.length)).map env.fresh, true)
    else (lb, false)

/-- A `memcpy` into a buffer. -/
def LineBuf.write (lb : LineBuf) (pos : ℕ) (s : List UInt8) : LineBuf :=
  lb.take pos ++ s ++ lb.drop (pos + s.length)

/-- The text that starts a buffer. -/
def LineBuf.text (lb : LineBuf) : List UInt8 := lb.takeWhile (· ≠ 0)

/-- The three caches. -/
structure DisplayCaches where
  uid : IdCache := fun _ => none
  gid : IdCache := fun _ => none
  date : DateCache := {}

/-- The texts that come out of the caches for a line: owner and group, and the buffer with the
date. -/
structure CachedTexts where
  names : Option (List UInt8 × List UInt8)
  date : Option (List (Option UInt8))

/-- The lookups of `emit_node`: owner and group in the long format, the date of what is no
directory; none when the node could not be looked at. -/
def readCaches (env : DisplayEnv) (config : DisplayConfig) (node : ListedNode)
    (c : DisplayCaches) : CachedTexts × DisplayCaches :=
  if node.statErr ≠ 0 then (⟨none, none⟩, c)
  else
    let (names, c) :=
      if config.longFormat then
        let (uname, uid) := idCacheLookupUid env c.uid node.stxUid
        let (gname, gid) := idCacheLookupGid env c.gid node.stxGid
        (some (uname, gname), { c with uid, gid })
      else (none, c)
    if node.isDir then (⟨names, none⟩, c)
    else
      let (date, dc) := formatDate env 16 node.tvSec c.date
      (⟨names, some date⟩, { c with date := dc })

def padRight (n : ℕ) (t : List UInt8) : List UInt8 := t ++ List.replicate (n - t.length) 32

def padLeft (n : ℕ) (t : List UInt8) : List UInt8 := List.replicate (n - t.length) 32 ++ t

/-- Part 3 of the line. -/
def statsText (env : DisplayEnv) (config : DisplayConfig) (node : ListedNode)
    (texts : CachedTexts) : List UInt8 :=
  if node.statErr ≠ 0 then bytes "[error: " ++ env.strerror node.statErr ++ bytes "]"
  else
    (match texts.names with
      | none => []
      | some (uname, gname) => formatMode node.stxMode ++ bytes "  " ++ padRight 8 uname ++
          bytes " " ++ padRight 8 gname ++ bytes "  ") ++
    match texts.date with
    | none =>
      bytes "[" ++ fmtI64 (Int64.ofInt node.totalFiles) ++ bytes " file" ++
        (if node.totalFiles ≠ 1 then bytes "s" else []) ++
        (if node.totalDirs > 0 then bytes ", " ++ fmtI64 (Int64.ofInt node.totalDirs) ++
          bytes " dir" ++ (if node.totalDirs ≠ 1 then bytes "s" else []) else []) ++
        bytes ", " ++ formatSize 32 node.totalSize config.rawBytes ++ bytes "]"
    | some date =>
      padLeft 7 (formatSize 32 node.stxSize config.rawBytes) ++ bytes "  " ++
        (textOf date).getD (env.unterminated date)

/-- The name in its color. The root has a slash in any case. -/
def coloredName (cs : ColorScheme) (node : ListedNode) (depth : ℕ) : List UInt8 :=
  colorForNode cs node ++ node.name ++
    (if depth = 0 ∨ node.isDir = true then bytes "/" else []) ++
    if cs.enabled then cs.reset else []

/-- `NAME_COL` and `LONG_COL`. -/
def targetCol (config : DisplayConfig) : ℤ := if config.longFormat then 40 else 36

/-- Part 2 of the line. -/
def padding (config : DisplayConfig) (node : ListedNode) (depth : ℕ) : List UInt8 :=
  let visibleLen : ℤ :=
    if depth = 0 then node.name.length + 1
    else depth * 4 + node.name.length + if node.isDir then 1 else 0
  List.replicate (max 2 (targetCol config - visibleLen)).toNat 32

/-- What stands behind the prefix and the connector, up to the end of the line. -/
def nodeText (env : DisplayEnv) (config : DisplayConfig) (cs : ColorScheme) (node : ListedNode)
    (depth : ℕ) (texts : CachedTexts) : List UInt8 :=
  coloredName cs node depth ++ padding config node depth ++ statsText env config node texts ++
    bytes "\n"

/-- The connector of the last child and that of the others. -/
def connector (isLast : Bool) : List UInt8 :=
  if isLast then bytes "\xe2\x94\x94\xe2\x94\x80\xe2\x94\x80 "
  else bytes "\xe2\x94\x9c\xe2\x94\x80\xe2\x94\x80 "

/-- A whole line, with its prefix `pre`. -/
def nodeLine (env : DisplayEnv) (config : DisplayConfig) (cs : ColorScheme) (node : ListedNode)
    (pre : List UInt8) (isLast : Bool) (depth : ℕ) (texts : CachedTexts) : List UInt8 :=
  (if depth = 0 then [] else pre ++ connector isLast) ++
    nodeText env config cs node depth texts

/-- What `emit_node` writes to: the output, a piece for each `fwrite`, the counters, the line buffer
and the caches. -/
structure Emission where
  out : List (List UInt8) := []
  fileCount : ℤ := 0
  dirCount : ℤ := 0
  lb : LineBuf := []
  caches : DisplayCaches := {}

/-- `emit_node`. -/
def emitNode (env : DisplayEnv) (config : DisplayConfig) (cs : ColorScheme) (node : ListedNode)
    (pre : List UInt8) (isLast : Bool) (depth : ℕ) (e : Emission) : Emission :=
  if config.dirsOnly && !node.isDir then e
  else
    let (lb, ok) := lineBufEnsure env e.lb (pre.length + node.name.length + 512 + 256)
    if !ok then e
    else
      let (texts, caches) := readCaches env config node e.caches
      let line := nodeLine env config cs node pre isLast depth texts
      let e := { e with out := e.out ++ [line], lb := LineBuf.write lb 0 line, caches }
      if node.statErr ≠ 0 then
        if !node.isDir then { e with fileCount := e.fileCount + 1 } else e
      else if node.isDir && depth > 0 then { e with dirCount := e.dirCount + 1 }
      else if !node.isDir then { e with fileCount := e.fileCount + 1 }
      else e

variable {env : DisplayEnv} {config : DisplayConfig} {cs : ColorScheme} {node : ListedNode}
variable {pre : List UInt8} {isLast : Bool} {depth : ℕ} {e : Emission}

theorem lineBufEnsure_ok (halloc : ∀ n, env.alloc n = true) (lb : LineBuf) (needed : ℕ) :
    ∃ more, lineBufEnsure env lb needed = (lb ++ more, true) := by
  unfold lineBufEnsure
  by_cases h : needed ≤ lb.length
  · exact ⟨[], by rw [if_pos h, List.append_nil]⟩
  · rw [if_neg h]
    simp only [halloc, if_true]
    exact ⟨_, rfl⟩

/-- **What `emit_node` does**: it adds a line with the texts that come out of the caches, and counts
the node up, unless it is a directory that could not be looked at, or the root. -/
theorem emitNode_spec (halloc : ∀ n, env.alloc n = true)
    (h : (config.dirsOnly && !node.isDir) = false) :
    (emitNode env config cs node pre isLast depth e).out = e.out ++
        [nodeLine env config cs node pre isLast depth (readCaches env config node e.caches).1] ∧
      (emitNode env config cs node pre isLast depth e).caches =
        (readCaches env config node e.caches).2 ∧
      (emitNode env config cs node pre isLast depth e).fileCount =
        e.fileCount + (if node.isDir then 0 else 1) ∧
      (emitNode env config cs node pre isLast depth e).dirCount =
        e.dirCount + (if node.isDir ∧ node.statErr = 0 ∧ 0 < depth then 1 else 0) := by
  obtain ⟨more, hensure⟩ :=
    lineBufEnsure_ok halloc e.lb (pre.length + node.name.length + 512 + 256)
  unfold emitNode
  simp only [h, hensure, Bool.false_eq_true, if_false, Bool.not_true]
  by_cases herr : node.statErr = 0
  · cases hdir : node.isDir with
    | true =>
        by_cases hdepth : 0 < depth
        · simp [herr, hdepth]
        · simp [herr, hdepth]
    | false => simp [herr]
  · cases hdir : node.isDir with
    | true => simp [herr]
    | false => simp [herr]

end Aura
