import Mathlib.Data.List.TakeWhile
import Esp32Fx.Lib.CString

/-! `load_trust_roots` of `fx_wamr_native.c`, which reads the trust bundle line by line and gives
the parser one certificate at a time.  The lines are those that `fgets` returns, as the bytes before
the NUL.  The parser is `mbedtls_x509_crt_parse`: from the chain and a buffer that ends with a NUL
it makes its status and the chain after it. -/

namespace Esp32Fx.Native

open Lib

def beginMarker : List UInt8 := ascii "-----BEGIN CERTIFICATE-----"

def endMarker : List UInt8 := ascii "-----END CERTIFICATE-----"

abbrev pemBytes : Nat := 8192

inductive CurlCode
  | ok
  | outOfMemory
  | badFile
  deriving DecidableEq, Repr

/-- The trust file: its lines, and whether an error ends them. -/
structure TrustFile where
  lines : List (List UInt8)
  failed : Bool

/-- The state of the loop.  `used` is the length of `pem`.  The writes to the scratch buffer and the
buffers that the parser was given are kept. -/
structure RootScan (Chain : Type) where
  pem : List UInt8
  count : Nat
  chain : Chain
  writes : List (Nat × Nat)
  handed : List (List UInt8)

def RootScan.initial {Chain : Type} (chain : Chain) : RootScan Chain := ⟨[], 0, chain, [], []⟩

section Load

variable {Chain : Type} (parse : Chain → List UInt8 → Int × Chain)

/-- A round of the loop; an error is `goto done`. -/
def scanLine (scan : RootScan Chain) (line : List UInt8) :
    Except (RootScan Chain) (RootScan Chain) :=
  let used := scan.pem.length
  if used = 0 ∧ line ≠ beginMarker ++ ascii "\n" ∧ line ≠ beginMarker ++ ascii "\r\n" then .ok scan
  else if line.length ≥ pemBytes - used then .error scan
  else
    let scan := { scan with
      pem := scan.pem ++ line
      writes := scan.writes ++ [(used, line.length + 1)] }
    if line = endMarker ++ ascii "\n" ∨ line = endMarker ++ ascii "\r\n" ∨ line = endMarker then
      let parsed := parse scan.chain (scan.pem ++ [0])
      let scan := { scan with chain := parsed.2, handed := scan.handed ++ [scan.pem ++ [0]] }
      if parsed.1 ≠ 0 then .error scan else .ok { scan with count := scan.count + 1, pem := [] }
    else .ok scan

def scanLines (scan : RootScan Chain) :
    List (List UInt8) → Except (RootScan Chain) (RootScan Chain)
  | [] => .ok scan
  | line :: lines =>
    match scanLine parse scan line with
    | .error scan => .error scan
    | .ok scan => scanLines scan lines

/-- What a call returns, whether it installed the chain, and what it did before. -/
structure Loaded (Chain : Type) where
  result : CurlCode
  installed : Option Chain
  writes : List (Nat × Nat)
  handed : List (List UInt8)

/-- `load_trust_roots`, for the file that `fopen` found, if any, and whether `malloc` succeeds. -/
def loadTrustRoots (chain : Chain) (file : Option TrustFile) (allocates : Nat → Bool) :
    Loaded Chain :=
  match file with
  | none => ⟨.badFile, none, [], []⟩
  | some file =>
    if allocates pemBytes then
      match scanLines parse (.initial chain) file.lines with
      | .error scan => ⟨.badFile, none, scan.writes, scan.handed⟩
      | .ok scan =>
        if file.failed ∨ scan.pem.length ≠ 0 ∨ scan.count = 0 then
          ⟨.badFile, none, scan.writes, scan.handed⟩
        else ⟨.ok, some scan.chain, scan.writes, scan.handed⟩
    else ⟨.outOfMemory, none, [], []⟩

end Load

/-! ### Blocks -/

/-- The text of a line, without its LF or CR LF. -/
def lineText (line : List UInt8) : List UInt8 :=
  if line.getLast? = some 0x0a then
    if line.dropLast.getLast? = some 0x0d then line.dropLast.dropLast else line.dropLast
  else line

def isBegin (line : List UInt8) : Bool := lineText line = beginMarker

def isEnd (line : List UInt8) : Bool := lineText line = endMarker

/-- The blocks of a bundle, each from a line that begins a certificate to the next one that ends it,
and the lines of a block that is not closed. -/
def blocks (lines : List (List UInt8)) : List (List (List UInt8)) × Option (List (List UInt8)) :=
  match _hBegin : lines.dropWhile (!isBegin ·) with
  | [] => ([], none)
  | first :: rest =>
    match _hEnd : rest.dropWhile (!isEnd ·) with
    | [] => ([], some (first :: rest))
    | last :: later =>
      ((first :: rest.takeWhile (!isEnd ·) ++ [last]) :: (blocks later).1, (blocks later).2)
termination_by lines.length
decreasing_by
  all_goals
    have hRest := List.length_dropWhile_le (!isBegin ·) lines
    have hLater := List.length_dropWhile_le (!isEnd ·) rest
    rw [_hBegin, List.length_cons] at hRest
    rw [_hEnd, List.length_cons] at hLater
    omega

/-- The lines of a bundle: they have no NUL and fit the buffer of `fgets`, and only the last one may
lack its newline. -/
structure Bundle where
  lines : List (List UInt8)
  nulFree : ∀ line ∈ lines, 0 ∉ line
  short : ∀ line ∈ lines, line.length < 256
  ended : ∀ line ∈ lines.dropLast, line.getLast? = some 0x0a

section Spec

variable {Chain : Type} (parse : Chain → List UInt8 → Int × Chain)

/-- The parser takes the certificates, one after the other. -/
def acceptsAll (chain : Chain) : List (List UInt8) → Bool
  | [] => true
  | pem :: pems => (parse chain (pem ++ [0])).1 = 0 && acceptsAll (parse chain (pem ++ [0])).2 pems

/-- The chain after the parser has been given the certificates, one after the other. -/
def takeAll (chain : Chain) : List (List UInt8) → Chain
  | [] => chain
  | pem :: pems => takeAll (parse chain (pem ++ [0])).2 pems

/-- The certificates of a bundle. -/
def Bundle.certificates (bundle : Bundle) : List (List UInt8) :=
  (blocks bundle.lines).1.map List.flatten

/-- There are certificates, and each of them fits the scratch buffer and is accepted. -/
structure Bundle.Good (bundle : Bundle) (chain : Chain) : Prop where
  nonempty : bundle.certificates ≠ []
  fits : ∀ pem ∈ bundle.certificates, pem.length ≤ 8191
  accepted : acceptsAll parse chain bundle.certificates = true

/-- What loading a bundle should do.  The chain that is installed has all its certificates. -/
structure LoadsRoots (bundle : Bundle) (chain : Chain) (loaded : Loaded Chain) : Prop where
  handed : loaded.handed <+: bundle.certificates.map (· ++ [0])
  whole : loaded.result = .ok → loaded.handed = bundle.certificates.map (· ++ [0])
  ok_iff : loaded.result = .ok ↔ bundle.Good parse chain ∧ (blocks bundle.lines).2 = none
  installed : ∀ roots, loaded.installed = some roots ↔
    loaded.result = .ok ∧ roots = takeAll parse chain bundle.certificates
  inside : ∀ write ∈ loaded.writes, write.1 + write.2 ≤ 8192

end Spec

/-! ### Lines -/

/-- A marker is the text of a line with each of the line ends. -/
theorem lineText_eq_iff {marker : List UInt8} (hNewline : marker.getLast? ≠ some 0x0a)
    (hReturn : marker.getLast? ≠ some 0x0d) (line : List UInt8) :
    lineText line = marker ↔
      line = marker ++ [0x0a] ∨ line = marker ++ [0x0d, 0x0a] ∨ line = marker := by
  constructor
  · intro h
    unfold lineText at h
    split at h
    · next hLine =>
      obtain ⟨text, rfl⟩ := List.getLast?_eq_some_iff.mp hLine
      rw [List.dropLast_concat] at h
      split at h
      · next hText =>
        obtain ⟨text, rfl⟩ := List.getLast?_eq_some_iff.mp hText
        rw [List.dropLast_concat] at h
        rw [h, List.append_assoc]
        exact .inr (.inl rfl)
      · exact .inl (by rw [h])
    · exact .inr (.inr h)
  · rintro (rfl | rfl | rfl)
    · rw [lineText, if_pos List.getLast?_concat, List.dropLast_concat, if_neg hReturn]
    · have hPair : marker ++ [0x0d, 0x0a] = marker ++ [0x0d] ++ [0x0a] := by
        rw [List.append_assoc]
        rfl
      rw [hPair, lineText, if_pos List.getLast?_concat, List.dropLast_concat,
        if_pos List.getLast?_concat, List.dropLast_concat]
    · exact if_neg hNewline

theorem isBegin_iff (line : List UInt8) :
    isBegin line = true ↔ line = beginMarker ++ ascii "\n" ∨ line = beginMarker ++ ascii "\r\n" ∨
      line = beginMarker := by
  rw [isBegin, decide_eq_true_eq]
  exact lineText_eq_iff (by decide) (by decide) line

theorem isEnd_iff (line : List UInt8) :
    isEnd line = true ↔ line = endMarker ++ ascii "\n" ∨ line = endMarker ++ ascii "\r\n" ∨
      line = endMarker := by
  rw [isEnd, decide_eq_true_eq]
  exact lineText_eq_iff (by decide) (by decide) line

/-! ### Scanning -/

section Scan

variable {Chain : Type} (parse : Chain → List UInt8 → Int × Chain) {scan : RootScan Chain}

theorem scanLine_writes (line : List UInt8)
    (h : ∀ write ∈ scan.writes, write.1 + write.2 ≤ 8192) :
    (∀ scan', scanLine parse scan line = .ok scan' →
      ∀ write ∈ scan'.writes, write.1 + write.2 ≤ 8192) ∧
    ∀ scan', scanLine parse scan line = .error scan' →
      ∀ write ∈ scan'.writes, write.1 + write.2 ≤ 8192 := by
  unfold scanLine
  dsimp only
  split
  · exact ⟨fun _ hSame => Except.ok.inj hSame ▸ h, fun _ hNot => absurd hNot (by simp)⟩
  split
  · exact ⟨fun _ hNot => absurd hNot (by simp), fun _ hSame => Except.error.inj hSame ▸ h⟩
  · next hFits =>
    have hWrites : ∀ write ∈ scan.writes ++ [(scan.pem.length, line.length + 1)],
        write.1 + write.2 ≤ 8192 := by
      refine List.forall_mem_append.mpr ⟨h, List.forall_mem_singleton.mpr ?_⟩
      show scan.pem.length + (line.length + 1) ≤ 8192
      unfold pemBytes at hFits
      omega
    split
    · split
      · exact ⟨fun _ hNot => absurd hNot (by simp), fun _ hSame => Except.error.inj hSame ▸ hWrites⟩
      · exact ⟨fun _ hSame => Except.ok.inj hSame ▸ hWrites, fun _ hNot => absurd hNot (by simp)⟩
    · exact ⟨fun _ hSame => Except.ok.inj hSame ▸ hWrites, fun _ hNot => absurd hNot (by simp)⟩

theorem scanLines_writes (lines : List (List UInt8))
    (h : ∀ write ∈ scan.writes, write.1 + write.2 ≤ 8192) :
    (∀ scan', scanLines parse scan lines = .ok scan' →
      ∀ write ∈ scan'.writes, write.1 + write.2 ≤ 8192) ∧
    ∀ scan', scanLines parse scan lines = .error scan' →
      ∀ write ∈ scan'.writes, write.1 + write.2 ≤ 8192 := by
  induction lines generalizing scan with
  | nil =>
    exact ⟨fun _ hSame => Except.ok.inj hSame ▸ h, fun _ hNot => absurd hNot (by simp [scanLines])⟩
  | cons line lines ih =>
    obtain ⟨hOk, hError⟩ := scanLine_writes parse line h
    rw [scanLines]
    split
    · next scan' hLine =>
      exact ⟨fun _ hNot => absurd hNot (by simp),
        fun _ hSame => Except.error.inj hSame ▸ hError _ hLine⟩
    · next scan' hLine => exact ih (hOk _ hLine)

theorem scanLines_append (lines lines' : List (List UInt8)) :
    scanLines parse scan (lines ++ lines') =
      match scanLines parse scan lines with
      | .error scan => .error scan
      | .ok scan => scanLines parse scan lines' := by
  induction lines generalizing scan with
  | nil => rfl
  | cons line lines ih =>
    rw [List.cons_append, scanLines, scanLines]
    cases scanLine parse scan line with
    | error => rfl
    | ok scan => exact ih

/-- The lines before a block are passed over. -/
theorem scanLines_skip (hPem : scan.pem = []) {lines : List (List UInt8)}
    (h : ∀ line ∈ lines, line ≠ beginMarker ++ ascii "\n" ∧ line ≠ beginMarker ++ ascii "\r\n") :
    scanLines parse scan lines = .ok scan := by
  induction lines with
  | nil => rfl
  | cons line lines ih =>
    obtain ⟨hLine, hLines⟩ := List.forall_mem_cons.mp h
    have hUsed : scan.pem.length = 0 := by rw [hPem]; rfl
    rw [scanLines, scanLine]
    dsimp only
    rw [if_pos ⟨hUsed, hLine⟩]
    exact ih hLines

/-- A line of a block is copied when there is room for it. -/
theorem scanLine_copy {line : List UInt8}
    (hInside : scan.pem ≠ [] ∨ line = beginMarker ++ ascii "\n" ∨
      line = beginMarker ++ ascii "\r\n")
    (hEnd : isEnd line = false) :
    (scan.pem.length + line.length ≤ 8191 → scanLine parse scan line = .ok { scan with
        pem := scan.pem ++ line
        writes := scan.writes ++ [(scan.pem.length, line.length + 1)] }) ∧
    (8191 < scan.pem.length + line.length → scanLine parse scan line = .error scan) := by
  have hCopied : ¬(scan.pem.length = 0 ∧ line ≠ beginMarker ++ ascii "\n" ∧
      line ≠ beginMarker ++ ascii "\r\n") := by
    rintro ⟨hUsed, hNewline, hReturn⟩
    rcases hInside with hPem | hBegin | hBegin
    · exact hPem (List.length_eq_zero_iff.mp hUsed)
    · exact hNewline hBegin
    · exact hReturn hBegin
  have hOther : ¬(line = endMarker ++ ascii "\n" ∨ line = endMarker ++ ascii "\r\n" ∨
      line = endMarker) := by
    rw [← isEnd_iff, hEnd]
    decide
  unfold scanLine pemBytes
  dsimp only
  rw [if_neg hCopied]
  constructor
  · intro hFits
    rw [if_neg (by omega), if_neg hOther]
  · intro hLong
    rw [if_pos (by omega)]

/-- The parser has not been called. -/
structure Copied (scan scan' : RootScan Chain) : Prop where
  count : scan'.count = scan.count
  chain : scan'.chain = scan.chain
  handed : scan'.handed = scan.handed

theorem Copied.trans {scan scan' scan'' : RootScan Chain} (h : Copied scan scan')
    (h' : Copied scan' scan'') : Copied scan scan'' :=
  ⟨h'.count.trans h.count, h'.chain.trans h.chain, h'.handed.trans h.handed⟩

/-- Copying stops where the scratch buffer is full. -/
theorem scanLines_copy {lines : List (List UInt8)} (hPem : scan.pem ≠ [])
    (hUsed : scan.pem.length ≤ 8191) (hEnd : ∀ line ∈ lines, isEnd line = false) :
    (scan.pem.length + lines.flatten.length ≤ 8191 → ∃ scan',
      scanLines parse scan lines = .ok scan' ∧ Copied scan scan' ∧
        scan'.pem = scan.pem ++ lines.flatten) ∧
    (8191 < scan.pem.length + lines.flatten.length → ∃ scan',
      scanLines parse scan lines = .error scan' ∧ Copied scan scan') := by
  induction lines generalizing scan with
  | nil =>
    refine ⟨fun _ => ⟨scan, rfl, ⟨rfl, rfl, rfl⟩, (List.append_nil _).symm⟩, fun hLong => ?_⟩
    exact absurd hLong (Nat.not_lt.mpr hUsed)
  | cons line lines ih =>
    obtain ⟨hLine, hLines⟩ := List.forall_mem_cons.mp hEnd
    obtain ⟨hCopy, hFull⟩ := scanLine_copy parse (.inl hPem) hLine
    rw [List.flatten_cons, List.length_append, scanLines]
    by_cases hRoom : scan.pem.length + line.length ≤ 8191
    · rw [hCopy hRoom]
      dsimp only
      obtain ⟨hFits, hLong⟩ := @ih { scan with
        pem := scan.pem ++ line
        writes := scan.writes ++ [(scan.pem.length, line.length + 1)] }
        (List.append_ne_nil_of_left_ne_nil hPem _) (by rw [List.length_append]; exact hRoom) hLines
      rw [List.length_append, Nat.add_assoc] at hFits hLong
      constructor
      · intro h
        obtain ⟨scan', hScan, hCopied, hText⟩ := hFits h
        exact ⟨scan', hScan, ⟨hCopied.count, hCopied.chain, hCopied.handed⟩,
          hText.trans (List.append_assoc ..)⟩
      · intro h
        obtain ⟨scan', hScan, hCopied⟩ := hLong h
        exact ⟨scan', hScan, ⟨hCopied.count, hCopied.chain, hCopied.handed⟩⟩
    · rw [hFull (Nat.lt_of_not_le hRoom)]
      exact ⟨fun h => absurd h (by omega), fun _ => ⟨scan, rfl, ⟨rfl, rfl, rfl⟩⟩⟩

theorem isEnd_of_isBegin {line : List UInt8} (h : isBegin line = true) : isEnd line = false := by
  rw [isBegin, decide_eq_true_eq] at h
  rw [isEnd, h]
  decide

/-- The line that begins a block, and the lines up to its end. -/
theorem scanLines_open {first : List UInt8} {lines : List (List UInt8)} (hPem : scan.pem = [])
    (hBegin : first = beginMarker ++ ascii "\n" ∨ first = beginMarker ++ ascii "\r\n")
    (hEnd : ∀ line ∈ lines, isEnd line = false) :
    ((first :: lines).flatten.length ≤ 8191 → ∃ scan',
      scanLines parse scan (first :: lines) = .ok scan' ∧ Copied scan scan' ∧
        scan'.pem = (first :: lines).flatten) ∧
    (8191 < (first :: lines).flatten.length → ∃ scan',
      scanLines parse scan (first :: lines) = .error scan' ∧ Copied scan scan') := by
  have hFirst : isEnd first = false := by
    apply isEnd_of_isBegin
    rw [isBegin_iff]
    exact hBegin.imp_right .inl
  have hSmall : first.length ≤ 8191 ∧ first ≠ [] := by
    rcases hBegin with rfl | rfl <;> decide
  have hInside : scan.pem ≠ [] ∨ first = beginMarker ++ ascii "\n" ∨
      first = beginMarker ++ ascii "\r\n" := .inr hBegin
  obtain ⟨hCopy, -⟩ := scanLine_copy parse hInside hFirst
  rw [hPem, List.length_nil, Nat.zero_add, List.nil_append] at hCopy
  rw [List.flatten_cons, List.length_append, scanLines, hCopy hSmall.1]
  dsimp only
  obtain ⟨hFits, hLong⟩ := @scanLines_copy _ parse { scan with
    pem := first, writes := scan.writes ++ [(0, first.length + 1)] } lines hSmall.2 hSmall.1 hEnd
  constructor
  · intro h
    obtain ⟨scan', hScan, hCopied, hText⟩ := hFits h
    exact ⟨scan', hScan, ⟨hCopied.count, hCopied.chain, hCopied.handed⟩, hText⟩
  · intro h
    obtain ⟨scan', hScan, hCopied⟩ := hLong h
    exact ⟨scan', hScan, ⟨hCopied.count, hCopied.chain, hCopied.handed⟩⟩

/-- The line that ends a block, with which it is handed to the parser. -/
theorem scanLine_close {line : List UInt8} (hPem : scan.pem ≠ []) (hEnd : isEnd line = true) :
    (8191 < scan.pem.length + line.length → scanLine parse scan line = .error scan) ∧
    (scan.pem.length + line.length ≤ 8191 →
      (parse scan.chain (scan.pem ++ line ++ [0])).1 ≠ 0 → ∃ scan',
        scanLine parse scan line = .error scan' ∧
          scan'.handed = scan.handed ++ [scan.pem ++ line ++ [0]]) ∧
    (scan.pem.length + line.length ≤ 8191 →
      (parse scan.chain (scan.pem ++ line ++ [0])).1 = 0 → ∃ scan',
        scanLine parse scan line = .ok scan' ∧
          scan'.handed = scan.handed ++ [scan.pem ++ line ++ [0]] ∧ scan'.pem = [] ∧
          scan'.count = scan.count + 1 ∧
          scan'.chain = (parse scan.chain (scan.pem ++ line ++ [0])).2) := by
  have hCopied : ¬(scan.pem.length = 0 ∧ line ≠ beginMarker ++ ascii "\n" ∧
      line ≠ beginMarker ++ ascii "\r\n") :=
    fun h => hPem (List.length_eq_zero_iff.mp h.1)
  rw [isEnd_iff] at hEnd
  unfold scanLine pemBytes
  dsimp only
  rw [if_neg hCopied]
  refine ⟨fun hLong => if_pos (by omega), fun hFits hStatus => ?_, fun hFits hStatus => ?_⟩
  · rw [if_neg (by omega), if_pos hEnd, if_pos hStatus]
    exact ⟨_, rfl, rfl⟩
  · rw [if_neg (by omega), if_pos hEnd, if_neg (not_not.mpr hStatus)]
    exact ⟨_, rfl, rfl, rfl, rfl, rfl⟩

/-! ### Runs -/

/-- The marker that begins a certificate comes without a newline at the very end only. -/
def BareLast (lines : List (List UInt8)) : Prop :=
  ∀ before after, lines = before ++ beginMarker :: after → after = []

theorem BareLast.suffix {before lines lines' : List (List UInt8)} (h : BareLast lines')
    (hLines : lines' = before ++ lines) : BareLast lines :=
  fun before' after hSplit => h (before ++ before') after (by rw [hLines, hSplit, List.append_assoc])

/-- There is no open block, or none that the loop takes for one. -/
def LooksClosed (tail : Option (List (List UInt8))) : Prop :=
  tail = none ∨ tail = some [beginMarker]

/-- A loop that came to its end, over certificates and what is behind them. -/
structure Scanned (scan scan' : RootScan Chain) (pems : List (List UInt8))
    (tail : Option (List (List UInt8))) : Prop where
  handed : scan'.handed = scan.handed ++ pems.map (· ++ [0])
  count : scan'.count = scan.count + pems.length
  chain : scan'.chain = takeAll parse scan.chain pems
  fits : ∀ pem ∈ pems, pem.length ≤ 8191
  accepted : acceptsAll parse scan.chain pems = true
  used : scan'.pem = [] ↔ LooksClosed tail

/-- A loop that was left. -/
structure Stopped (scan scan' : RootScan Chain) (pems : List (List UInt8))
    (tail : Option (List (List UInt8))) : Prop where
  handed : scan'.handed <+: scan.handed ++ pems.map (· ++ [0])
  reason : (∀ pem ∈ pems, pem.length ≤ 8191) → acceptsAll parse scan.chain pems = true →
    ¬LooksClosed tail

def ScansBlocks (scan : RootScan Chain) (lines pems : List (List UInt8))
    (tail : Option (List (List UInt8))) : Prop :=
  (∃ scan', scanLines parse scan lines = .ok scan' ∧ Scanned parse scan scan' pems tail) ∨
    ∃ scan', scanLines parse scan lines = .error scan' ∧ Stopped parse scan scan' pems tail

/-- A block goes to the parser, and what is behind it follows. -/
theorem scansBlocks_block {first last : List UInt8} {body later pems : List (List UInt8)}
    {tail : Option (List (List UInt8))} (hPem : scan.pem = [])
    (hBegin : first = beginMarker ++ ascii "\n" ∨ first = beginMarker ++ ascii "\r\n")
    (hBody : ∀ line ∈ body, isEnd line = false) (hLast : isEnd last = true)
    (hLater : ∀ scan : RootScan Chain, scan.pem = [] → ScansBlocks parse scan later pems tail) :
    ScansBlocks parse scan (first :: body ++ last :: later)
      ((first :: body ++ [last]).flatten :: pems) tail := by
  have hBlock : (first :: body ++ [last]).flatten = (first :: body).flatten ++ last := by
    rw [List.flatten_append, List.flatten_singleton]
  have hSome : (first :: body).flatten ≠ [] := by
    rw [List.flatten_cons]
    apply List.append_ne_nil_of_left_ne_nil
    rcases hBegin with rfl | rfl <;> decide
  obtain ⟨hFits, hLong⟩ := scanLines_open parse hPem hBegin hBody
  rw [ScansBlocks, scanLines_append, hBlock]
  by_cases hRoom : (first :: body).flatten.length ≤ 8191
  · obtain ⟨scan1, hScan1, hCopied, hText⟩ := hFits hRoom
    rw [hScan1]
    dsimp only
    rw [scanLines]
    have hSome1 : scan1.pem ≠ [] := hText ▸ hSome
    obtain ⟨hFull, hRefused, hTaken⟩ := scanLine_close parse hSome1 hLast
    rw [hText, hCopied.chain, hCopied.handed] at hRefused hTaken
    rw [hText] at hFull
    rw [hCopied.count] at hTaken
    by_cases hAll : (first :: body).flatten.length + last.length ≤ 8191
    · by_cases hStatus : (parse scan.chain ((first :: body).flatten ++ last ++ [0])).1 = 0
      · obtain ⟨scan2, hScan2, hHanded, hEmpty, hCount, hChain⟩ := hTaken hAll hStatus
        rw [hScan2]
        dsimp only
        rcases hLater scan2 hEmpty with ⟨scan', hScan', h⟩ | ⟨scan', hScan', h⟩
        · refine .inl ⟨scan', hScan', ?_, ?_, ?_, ?_, ?_, h.used⟩
          · rw [h.handed, hHanded, List.append_assoc]
            rfl
          · rw [h.count, hCount, List.length_cons]
            omega
          · rw [h.chain, hChain]
            rfl
          · refine List.forall_mem_cons.mpr ⟨?_, h.fits⟩
            rw [List.length_append]
            exact hAll
          · rw [acceptsAll, hStatus, ← hChain, h.accepted]
            rfl
        · refine .inr ⟨scan', hScan', ?_, fun hSmall hAccepted => ?_⟩
          · rw [List.map_cons, List.append_cons, ← hHanded]
            exact h.handed
          · rw [acceptsAll, Bool.and_eq_true, ← hChain] at hAccepted
            exact h.reason (List.forall_mem_cons.mp hSmall).2 hAccepted.2
      · obtain ⟨scan', hScan', hHanded⟩ := hRefused hAll hStatus
        rw [hScan']
        refine .inr ⟨scan', rfl, ?_, fun _ hAccepted => ?_⟩
        · rw [hHanded, List.map_cons]
          exact (List.prefix_append_right_inj _).mpr ⟨_, rfl⟩
        · rw [acceptsAll, Bool.and_eq_true, decide_eq_true_eq] at hAccepted
          exact absurd hAccepted.1 hStatus
    · rw [hFull (Nat.lt_of_not_le hAll)]
      refine .inr ⟨scan1, rfl, ?_, fun hSmall => ?_⟩
      · rw [hCopied.handed]
        exact List.prefix_append ..
      · have hOne := (List.forall_mem_cons.mp hSmall).1
        rw [List.length_append] at hOne
        exact absurd hOne hAll
  · obtain ⟨scan1, hScan1, hCopied⟩ := hLong (Nat.lt_of_not_le hRoom)
    rw [hScan1]
    refine .inr ⟨scan1, rfl, ?_, fun hSmall => ?_⟩
    · rw [hCopied.handed]
      exact List.prefix_append ..
    · have hOne := (List.forall_mem_cons.mp hSmall).1
      rw [List.length_append] at hOne
      exact absurd (Nat.le_trans (Nat.le_add_right ..) hOne) hRoom

theorem takeWhile_not (p : List UInt8 → Bool) (lines : List (List UInt8)) :
    ∀ line ∈ lines.takeWhile (!p ·), p line = false := by
  intro line hLine
  simpa using List.mem_takeWhile_imp hLine

theorem dropWhile_not {p : List UInt8 → Bool} {lines rest : List (List UInt8)} {first : List UInt8}
    (h : lines.dropWhile (!p ·) = first :: rest) :
    lines = lines.takeWhile (!p ·) ++ first :: rest ∧ p first = true := by
  constructor
  · rw [← h, List.takeWhile_append_dropWhile]
  · have hHead := List.head?_dropWhile_not (!p ·) lines
    rw [h] at hHead
    simpa using hHead

/-- A line that begins no certificate is passed over, and so is the bare marker. -/
theorem skipped_of_not {line : List UInt8} (h : isBegin line = false ∨ line = beginMarker) :
    line ≠ beginMarker ++ ascii "\n" ∧ line ≠ beginMarker ++ ascii "\r\n" := by
  rcases h with hNot | rfl
  · have hNone : ¬isBegin line = true := by rw [hNot]; decide
    rw [isBegin_iff, not_or, not_or] at hNone
    exact ⟨hNone.1, hNone.2.1⟩
  · decide

theorem scanLines_blocks (scan : RootScan Chain) {lines : List (List UInt8)}
    (hBare : BareLast lines) (hPem : scan.pem = []) :
    ScansBlocks parse scan lines ((blocks lines).1.map List.flatten) (blocks lines).2 := by
  fun_induction blocks lines generalizing scan with
  | case1 lines hNone =>
    have hAll : ∀ line ∈ lines, isBegin line = false := by
      simpa using List.dropWhile_eq_nil_iff.mp hNone
    have hSkip := scanLines_skip parse hPem
      fun line hLine => skipped_of_not (.inl (hAll line hLine))
    refine .inl ⟨scan, hSkip, (List.append_nil _).symm, rfl, rfl, List.forall_mem_nil _, rfl, ?_⟩
    exact iff_of_true hPem (.inl rfl)
  | case2 lines first rest hBegin hEnd =>
    obtain ⟨hLines, hFirst⟩ := dropWhile_not hBegin
    have hBody : ∀ line ∈ rest, isEnd line = false := by
      simpa using List.dropWhile_eq_nil_iff.mp hEnd
    have hBefore := takeWhile_not isBegin lines
    generalize lines.takeWhile (!isBegin ·) = before at hLines hBefore
    subst hLines
    by_cases hMarker : first = beginMarker
    · subst hMarker
      obtain rfl := hBare before rest rfl
      have hSkip : scanLines parse scan (before ++ [beginMarker]) = .ok scan := by
        apply scanLines_skip parse hPem
        refine List.forall_mem_append.mpr ⟨fun line hLine => ?_, List.forall_mem_singleton.mpr ?_⟩
        · exact skipped_of_not (.inl (hBefore line hLine))
        · exact skipped_of_not (.inr rfl)
      refine .inl ⟨scan, hSkip, (List.append_nil _).symm, rfl, rfl, List.forall_mem_nil _, rfl, ?_⟩
      exact iff_of_true hPem (.inr rfl)
    · have hMarked : first = beginMarker ++ ascii "\n" ∨ first = beginMarker ++ ascii "\r\n" := by
        rcases (isBegin_iff first).mp hFirst with h | h | h
        · exact .inl h
        · exact .inr h
        · exact absurd h hMarker
      have hOpen : ¬LooksClosed (some (first :: rest)) := by
        rintro (h | h)
        · cases h
        · exact hMarker (List.cons.inj (Option.some.inj h)).1
      have hSkip := scanLines_skip parse hPem
        fun line hLine => skipped_of_not (.inl (hBefore line hLine))
      obtain ⟨hFits, hLong⟩ := scanLines_open parse hPem hMarked hBody
      rw [ScansBlocks, scanLines_append, hSkip]
      by_cases hRoom : (first :: rest).flatten.length ≤ 8191
      · obtain ⟨scan', hScan, hCopied, hText⟩ := hFits hRoom
        refine .inl ⟨scan', hScan, ?_, hCopied.count, hCopied.chain, List.forall_mem_nil _, rfl, ?_⟩
        · rw [hCopied.handed]
          exact (List.append_nil _).symm
        · refine iff_of_false (fun hEmpty => ?_) hOpen
          rw [hText, List.flatten_cons] at hEmpty
          have hNil := (List.append_eq_nil_iff.mp hEmpty).1
          rcases hMarked with rfl | rfl <;> exact absurd hNil (by decide)
      · obtain ⟨scan', hScan, hCopied⟩ := hLong (Nat.lt_of_not_le hRoom)
        refine .inr ⟨scan', hScan, ?_, fun _ _ => hOpen⟩
        rw [hCopied.handed]
        exact List.prefix_append ..
  | case3 lines first rest hBegin last later hEnd ih =>
    obtain ⟨hLines, hFirst⟩ := dropWhile_not hBegin
    obtain ⟨hRest, hLast⟩ := dropWhile_not hEnd
    have hBefore := takeWhile_not isBegin lines
    have hBody := takeWhile_not isEnd rest
    generalize lines.takeWhile (!isBegin ·) = before at hLines hBefore
    generalize rest.takeWhile (!isEnd ·) = body at hRest hBody ⊢
    subst hLines hRest
    have hMarked : first = beginMarker ++ ascii "\n" ∨ first = beginMarker ++ ascii "\r\n" := by
      rcases (isBegin_iff first).mp hFirst with h | h | h
      · exact .inl h
      · exact .inr h
      · subst h
        exact absurd (hBare before _ rfl) (by simp)
    have hSkip := scanLines_skip parse hPem
      fun line hLine => skipped_of_not (.inl (hBefore line hLine))
    have hLater : BareLast later := by
      have hSplit : before ++ first :: (body ++ last :: later) =
          (before ++ first :: (body ++ [last])) ++ later := by
        rw [List.append_assoc, List.cons_append, List.append_assoc, List.singleton_append]
      exact hBare.suffix hSplit
    rw [ScansBlocks, scanLines_append, hSkip]
    exact scansBlocks_block parse hPem hMarked hBody hLast fun scan' hPem' => ih scan' hLater hPem'

end Scan

/-! ### Bundles -/

theorem Bundle.bareLast (bundle : Bundle) : BareLast bundle.lines := by
  intro before after hLines
  by_contra hAfter
  have hMem : beginMarker ∈ bundle.lines.dropLast := by
    rw [hLines, List.dropLast_append_of_ne_nil (List.cons_ne_nil _ _),
      List.dropLast_cons_of_ne_nil hAfter]
    exact List.mem_append_right _ List.mem_cons_self
  exact absurd (bundle.ended _ hMem) (by decide)

section Bundle

variable {Chain : Type} (parse : Chain → List UInt8 → Int × Chain) (chain : Chain)
  {allocates : Nat → Bool}

/-- The loop takes a bundle for good when it is, but for a bare marker at its end. -/
theorem loadTrustRoots_ok_iff (bundle : Bundle) (hMemory : allocates pemBytes = true) :
    (loadTrustRoots parse chain (some ⟨bundle.lines, false⟩) allocates).result = .ok ↔
      bundle.Good parse chain ∧ LooksClosed (blocks bundle.lines).2 := by
  have hScan := scanLines_blocks parse (.initial chain) bundle.bareLast rfl
  rw [← Bundle.certificates] at hScan
  rw [loadTrustRoots]
  dsimp only
  rw [if_pos hMemory]
  rcases hScan with ⟨scan, hScan, h⟩ | ⟨scan, hScan, h⟩
  · rw [hScan]
    dsimp only
    have hCount : scan.count = 0 ↔ bundle.certificates = [] := by
      rw [h.count, show (RootScan.initial chain).count = 0 from rfl, Nat.zero_add,
        List.length_eq_zero_iff]
    constructor
    · intro hOk
      split at hOk
      · cases hOk
      · next hGood =>
        simp only [Bool.false_eq_true, false_or, not_or, Decidable.not_not,
          List.length_eq_zero_iff] at hGood
        exact ⟨⟨fun hNone => hGood.2 (hCount.mpr hNone), h.fits, h.accepted⟩, h.used.mp hGood.1⟩
    · rintro ⟨hGood, hClosed⟩
      rw [if_neg]
      simp only [Bool.false_eq_true, false_or, not_or, Decidable.not_not, List.length_eq_zero_iff]
      exact ⟨h.used.mpr hClosed, fun hNone => hGood.nonempty (hCount.mp hNone)⟩
  · rw [hScan]
    refine iff_of_false (fun hOk => by cases hOk) ?_
    rintro ⟨hGood, hClosed⟩
    exact h.reason hGood.fits hGood.accepted hClosed

theorem loadTrustRoots_handed (bundle : Bundle) (hMemory : allocates pemBytes = true) :
    (loadTrustRoots parse chain (some ⟨bundle.lines, false⟩) allocates).handed <+:
        bundle.certificates.map (· ++ [0]) ∧
      ((loadTrustRoots parse chain (some ⟨bundle.lines, false⟩) allocates).result = .ok →
        (loadTrustRoots parse chain (some ⟨bundle.lines, false⟩) allocates).handed =
          bundle.certificates.map (· ++ [0])) := by
  have hScan := scanLines_blocks parse (.initial chain) bundle.bareLast rfl
  rw [← Bundle.certificates] at hScan
  rw [loadTrustRoots]
  dsimp only
  rw [if_pos hMemory]
  rcases hScan with ⟨scan, hScan, h⟩ | ⟨scan, hScan, h⟩
  · rw [hScan]
    have hHanded : scan.handed = bundle.certificates.map (· ++ [0]) := h.handed
    dsimp only
    split
    · exact ⟨hHanded ▸ List.prefix_refl _, fun _ => hHanded⟩
    · exact ⟨hHanded ▸ List.prefix_refl _, fun _ => hHanded⟩
  · rw [hScan]
    exact ⟨h.handed, fun hOk => by cases hOk⟩

theorem loadTrustRoots_installed (bundle : Bundle) (hMemory : allocates pemBytes = true)
    (roots : Chain) :
    (loadTrustRoots parse chain (some ⟨bundle.lines, false⟩) allocates).installed = some roots ↔
      (loadTrustRoots parse chain (some ⟨bundle.lines, false⟩) allocates).result = .ok ∧
        roots = takeAll parse chain bundle.certificates := by
  have hScan := scanLines_blocks parse (.initial chain) bundle.bareLast rfl
  rw [← Bundle.certificates] at hScan
  rw [loadTrustRoots]
  dsimp only
  rw [if_pos hMemory]
  rcases hScan with ⟨scan, hScan, h⟩ | ⟨scan, hScan, -⟩
  · rw [hScan]
    have hChain : scan.chain = takeAll parse chain bundle.certificates := h.chain
    dsimp only
    split
    · simp
    · rw [hChain]
      simp [eq_comm]
  · rw [hScan]
    simp

theorem loadTrustRoots_writes (file : Option TrustFile) :
    ∀ write ∈ (loadTrustRoots parse chain file allocates).writes, write.1 + write.2 ≤ 8192 := by
  unfold loadTrustRoots
  split
  · exact List.forall_mem_nil _
  · next file =>
    have hNone : ∀ write ∈ (RootScan.initial chain).writes, write.1 + write.2 ≤ 8192 :=
      List.forall_mem_nil _
    obtain ⟨hOk, hError⟩ := scanLines_writes parse file.lines hNone
    split
    · split
      · next scan hScan => exact hError scan hScan
      · next scan hScan =>
        split
        · exact hOk scan hScan
        · exact hOk scan hScan
    · exact List.forall_mem_nil _

/-- A bundle is loaded as it should be unless it breaks off right behind the marker that begins a
certificate, with nothing wrong before. -/
theorem loadTrustRoots_blocks_iff (bundle : Bundle) (hMemory : allocates pemBytes = true) :
    LoadsRoots parse bundle chain
        (loadTrustRoots parse chain (some ⟨bundle.lines, false⟩) allocates) ↔
      ¬((blocks bundle.lines).2 = some [beginMarker] ∧ bundle.Good parse chain) := by
  obtain ⟨hHanded, hWhole⟩ := loadTrustRoots_handed parse chain bundle hMemory
  constructor
  · rintro hLoads ⟨hBare, hGood⟩
    have hOk := (loadTrustRoots_ok_iff parse chain bundle hMemory).mpr ⟨hGood, .inr hBare⟩
    rw [(hLoads.ok_iff.mp hOk).2] at hBare
    cases hBare
  · intro hBare
    refine ⟨hHanded, hWhole, ?_, loadTrustRoots_installed parse chain bundle hMemory,
      loadTrustRoots_writes parse chain _⟩
    rw [loadTrustRoots_ok_iff parse chain bundle hMemory]
    constructor
    · rintro ⟨hGood, hClosed | hMarker⟩
      · exact ⟨hGood, hClosed⟩
      · exact absurd ⟨hMarker, hGood⟩ hBare
    · exact fun ⟨hGood, hClosed⟩ => ⟨hGood, .inl hClosed⟩

end Bundle

/-- A parser that adds a block to the chain unless it has an `X`. -/
def parseUnlessX (chain : List (List UInt8)) (pem : List UInt8) : Int × List (List UInt8) :=
  if pem.contains 0x58 then (-4396, chain) else (0, chain ++ [pem])

/-- Two blocks, and a line between them; the last line has no newline. -/
def goodBundle : Bundle where
  lines := [beginMarker ++ ascii "\n", ascii "AAAA\n", endMarker ++ ascii "\n", ascii "# B\n",
    beginMarker ++ ascii "\r\n", ascii "BBBB\r\n", endMarker]
  nulFree := by decide
  short := by decide
  ended := by decide

/-- The same with a second block that the parser does not take. -/
def badBundle : Bundle where
  lines := [beginMarker ++ ascii "\n", ascii "AAAA\n", endMarker ++ ascii "\n", ascii "# B\n",
    beginMarker ++ ascii "\r\n", ascii "XXXX\r\n", endMarker]
  nulFree := by decide
  short := by decide
  ended := by decide

def loadedFrom (bundle : Bundle) : Loaded (List (List UInt8)) :=
  loadTrustRoots parseUnlessX [] (some ⟨bundle.lines, false⟩) fun _ => true

theorem loadTrustRoots_blocks_iff_two :
    (LoadsRoots parseUnlessX goodBundle [] (loadedFrom goodBundle) ∧ (loadedFrom goodBundle).installed =
      some [beginMarker ++ ascii "\nAAAA\n" ++ endMarker ++ ascii "\n" ++ [0],
        beginMarker ++ ascii "\r\nBBBB\r\n" ++ endMarker ++ [0]]) ∧
    LoadsRoots parseUnlessX badBundle [] (loadedFrom badBundle) ∧
      (loadedFrom badBundle).handed.length = 2 ∧ (loadedFrom badBundle).installed = none := by
  have hGood : (blocks goodBundle.lines).2 = none := by decide +kernel
  have hBad : (blocks badBundle.lines).2 = none := by decide +kernel
  refine ⟨⟨(loadTrustRoots_blocks_iff _ _ goodBundle rfl).mpr ?_, by decide +kernel⟩,
    (loadTrustRoots_blocks_iff _ _ badBundle rfl).mpr ?_, by decide +kernel, by decide +kernel⟩
  · rintro ⟨hBare, -⟩
    rw [hGood] at hBare
    cases hBare
  · rintro ⟨hBare, -⟩
    rw [hBad] at hBare
    cases hBare

/-- A certificate, and the first line of another one up to where its newline would be. -/
def brokenBundle : Bundle where
  lines := [beginMarker ++ ascii "\n", ascii "AAAA\n", endMarker ++ ascii "\n", beginMarker]
  nulFree := by decide
  short := by decide
  ended := by decide

theorem loadTrustRoots_broken :
    ¬∀ (parse : List (List UInt8) → List UInt8 → Int × List (List UInt8)) (bundle : Bundle)
      (chain : List (List UInt8)) (allocates : Nat → Bool), allocates pemBytes = true →
      LoadsRoots parse bundle chain
        (loadTrustRoots parse chain (some ⟨bundle.lines, false⟩) allocates) := by
  intro h
  have hLoads := h (fun chain pem => (0, chain ++ [pem])) brokenBundle [] (fun _ => true) rfl
  have hOk : (loadTrustRoots (fun chain pem => (0, chain ++ [pem])) []
      (some ⟨brokenBundle.lines, false⟩) fun _ => true).result = .ok := by decide
  have hOpen : (blocks brokenBundle.lines).2 ≠ none := by decide +kernel
  exact hOpen (hLoads.ok_iff.mp hOk).2

end Esp32Fx.Native
