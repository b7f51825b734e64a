import Esp32Fx.Runner.FlashModule
import Esp32Fx.Lib.Transition
import Esp32Fx.Tools.Deploy

/-! What `execute --module` starts after any loads.  A load puts the module's own file in place
before it touches `current.sha256`, so that until then nothing has changed for `execute`; the write
of `current.sha256` itself is in place and may be left half done. -/

namespace Esp32Fx.Tools

open Lib Lib.Py Program Runner

variable {sha256 : List UInt8 → List UInt8} {storage : Storage} {s t u : Board}
  {files : Directory BoardFile (List UInt8)} {data content : List UInt8}
  {name digest destination nonce : List Char}

/-! ### Digests -/

theorem hexDigit_injective : ∀ m n : Fin 16, hexDigit m = hexDigit n → m = n := by decide

theorem hexdigest_injective : ∀ {a b : List UInt8}, hexdigest a = hexdigest b → a = b
  | [], [], _ => rfl
  | [], _ :: _, h => by cases h
  | _ :: _, [], h => by cases h
  | x :: a, y :: b, h => by
    have hx := x.toNat_lt
    have hy := y.toNat_lt
    simp only [hexdigest, List.flatMap_cons, List.cons_append, List.nil_append,
      List.cons.injEq] at h
    obtain ⟨hHigh, hLow, hRest⟩ := h
    have hHigh' := hexDigit_injective ⟨x.toNat / 16, by omega⟩ ⟨y.toNat / 16, by omega⟩ hHigh
    have hLow' := hexDigit_injective ⟨x.toNat % 16, by omega⟩ ⟨y.toNat % 16, by omega⟩ hLow
    simp only [Fin.mk.injEq] at hHigh' hLow'
    have hByte : x = y := UInt8.toNat_inj.mp (by omega)
    rw [hByte, hexdigest_injective hRest]

/-- A digest that `deployment_path` accepts. -/
structure IsDigest (digest : List Char) : Prop where
  length : digest.length = 64
  hex : ∀ c ∈ digest, isHex c = true

theorem deploymentPath_digest (h : deploymentPath storage name digest = some destination) :
    IsDigest digest := by
  unfold deploymentPath at h
  split at h
  · cases h
  split at h
  · cases h
  · next hDigest =>
    push Not at hDigest
    exact ⟨hDigest.1, by simpa using hDigest.2⟩

theorem isHex_range {c : Char} (h : isHex c = true) : 0x30 ≤ c.toNat ∧ c.toNat ≤ 0x66 := by
  simp only [isHex, Bool.or_eq_true, Bool.and_eq_true, decide_eq_true_eq, Char.le_def,
    UInt32.le_iff_toNat_le] at h
  rcases h with ⟨hLow, hHigh⟩ | ⟨hLow, hHigh⟩
  · exact ⟨hLow, Nat.le_trans hHigh (by decide)⟩
  · exact ⟨Nat.le_trans (by decide) hLow, hHigh⟩

theorem encodeChar_hex {c : Char} (h : isHex c = true) :
    String.utf8EncodeChar c = [UInt8.ofNat c.toNat] := by
  have hRange := isHex_range h
  rw [String.utf8EncodeChar, if_pos (show c.val.toNat ≤ 0x7f from Nat.le_trans hRange.2 (by decide))]
  rfl

theorem hexByte_toNat {c : Char} (h : isHex c = true) : (UInt8.ofNat c.toNat).toNat = c.toNat := by
  have hRange := isHex_range h
  exact Nat.mod_eq_of_lt (by omega)

/-- A digest as the bytes of a file. -/
def digestBytes (digest : List Char) : List UInt8 := digest.map fun c => UInt8.ofNat c.toNat

theorem encode_digest (h : ∀ c ∈ digest, isHex c = true) : encode digest = digestBytes digest := by
  induction digest with
  | nil => rfl
  | cons c digest ih =>
    rw [encode, List.flatMap_cons, encodeChar_hex (h c (by simp)), ← encode,
      ih fun c hc => h c (by simp [hc])]
    rfl

theorem digestBytes_byte (h : ∀ c ∈ digest, isHex c = true) :
    ∀ b ∈ digestBytes digest, b ≠ 0 ∧ b ≠ 0x0a := by
  intro b hb
  obtain ⟨c, hc, rfl⟩ := List.mem_map.mp hb
  have hRange := isHex_range (h c hc)
  have hNat := hexByte_toNat (h c hc)
  constructor
  · intro hZero
    rw [hZero] at hNat
    simp at hNat
    omega
  · intro hNewline
    rw [hNewline] at hNat
    simp at hNat
    omega

theorem digestBytes_chars (h : ∀ c ∈ digest, isHex c = true) :
    ((digestBytes digest).map fun b => Char.ofNat b.toNat) = digest := by
  rw [digestBytes, List.map_map]
  conv_rhs => rw [← List.map_id digest]
  apply List.map_congr_left
  intro c hc
  show Char.ofNat (UInt8.ofNat c.toNat).toNat = c
  rw [hexByte_toNat (h c hc), Char.ofNat_toNat]

theorem substituted_digest (h : ∀ c ∈ digest, isHex c = true) (newlines : Nat) :
    substituted (digestBytes digest ++ List.replicate newlines 0x0a) = digestBytes digest := by
  have hByte := digestBytes_byte h
  have hFilter : (digestBytes digest ++ List.replicate newlines 0x0a).filter (· ≠ 0) =
      digestBytes digest ++ List.replicate newlines 0x0a := by
    rw [List.filter_eq_self]
    intro b hb
    rcases List.mem_append.mp hb with hDigest | hNewline
    · simpa using (hByte b hDigest).1
    · rw [List.eq_of_mem_replicate hNewline]
      decide
  rw [substituted, hFilter]
  induction newlines with
  | zero =>
    rw [List.replicate_zero, List.append_nil, List.rdropWhile_eq_self_iff]
    intro hNonempty
    simpa using (hByte _ (List.getLast_mem hNonempty)).2
  | succ newlines ih =>
    rw [List.replicate_succ', ← List.append_assoc, List.rdropWhile_concat_pos _ _ _ (by decide)]
    apply ih
    rw [List.filter_eq_self] at hFilter ⊢
    intro b hb
    apply hFilter b
    simp only [List.mem_append, List.mem_replicate] at hb ⊢
    exact hb.imp_right fun h => ⟨by omega, h.2⟩

theorem substituted_length (output : List UInt8) : (substituted output).length ≤ output.length :=
  Nat.le_trans (List.rdropWhile_prefix _ _).length_le (List.length_filter_le _ _)

/-- A file that holds the digest, with its newline or without. -/
theorem currentDigest_written (h : IsDigest digest) (newlines : Nat)
    (hFile : files .currentSha256 = some (digestBytes digest ++ List.replicate newlines 0x0a)) :
    currentDigest files = some digest := by
  have hAll : digest.all isHex = true := by simpa using h.hex
  simp only [currentDigest, hFile, substituted_digest h.hex, digestBytes_chars h.hex, h.length, hAll,
    ne_eq, not_true_eq_false, Bool.true_eq_false, or_self, if_false]

/-- What a write of a digest leaves, at its end or before. -/
theorem currentDigest_torn (h : IsDigest digest) (hFile : files .currentSha256 = some content)
    (hContent : content <+: encode (digest ++ ['\n'])) :
    currentDigest files = none ∨ currentDigest files = some digest := by
  have hWhole : encode (digest ++ ['\n']) = digestBytes digest ++ [0x0a] := by
    rw [← encode_digest h.hex]
    exact List.flatMap_append
  rw [hWhole, List.prefix_concat_iff] at hContent
  rcases hContent with rfl | hPrefix
  · exact .inr (currentDigest_written h 1 hFile)
  have hBytes : (digestBytes digest).length = 64 := by rw [digestBytes, List.length_map, h.length]
  by_cases hLength : content.length = 64
  · obtain rfl := hPrefix.eq_of_length (by omega)
    exact .inr (currentDigest_written h 0 (by simpa using hFile))
  · apply Or.inl
    have hShort := substituted_length content
    have hMost := hPrefix.length_le
    simp only [currentDigest, hFile, List.length_map]
    rw [if_pos (.inl (by omega))]

theorem currentDigest_congr {files' : Directory BoardFile (List UInt8)}
    (h : files' .currentSha256 = files .currentSha256) :
    currentDigest files' = currentDigest files := by
  unfold currentDigest
  rw [h]

/-! ### The invariant -/

/-- Every module has its digest and was transferred in full, and the current one is there. -/
structure Deployed (sha256 : List UInt8 → List UInt8) (s : Board) : Prop where
  modules : ∀ digest bytes, s.files (.module digest) = some bytes →
    hexdigest (sha256 bytes) = digest ∧ bytes ∈ s.transferred
  current : ∀ digest, currentDigest s.files = some digest →
    ∃ bytes, s.files (.module digest) = some bytes

/-- With the current module's file there, `execute --module` starts it. -/
theorem Deployed.execute {bytes : List UInt8} (h : Deployed sha256 s)
    (hDigest : currentDigest s.files = some digest) (hFile : s.files (.module digest) = some bytes) :
    executeModule sha256 s.files = some bytes := by
  simp only [executeModule, hDigest, hFile, (h.modules _ _ hFile).1, if_true]

theorem Deployed.executed {bytes : List UInt8} (h : Deployed sha256 s)
    (hExecute : executeModule sha256 s.files = some bytes) :
    bytes ∈ s.transferred ∧ currentDigest s.files = some (hexdigest (sha256 bytes)) := by
  unfold executeModule at hExecute
  split at hExecute
  · cases hExecute
  · next digest hDigest =>
    obtain ⟨bytes', hFile⟩ := h.current digest hDigest
    obtain ⟨hHash, hTransferred⟩ := h.modules _ _ hFile
    simp only [hFile, hHash, if_true, Option.some.injEq] at hExecute
    subst hExecute
    exact ⟨hTransferred, hHash ▸ hDigest⟩

/-- Every module is kept, and so is `current.sha256`. -/
structure Unseen (s t : Board) : Prop where
  current : t.files .currentSha256 = s.files .currentSha256
  modules : ∀ digest bytes, s.files (.module digest) = some bytes →
    t.files (.module digest) = some bytes

theorem Unseen.refl (s : Board) : Unseen s s := ⟨rfl, fun _ _ h => h⟩

theorem Unseen.execute (h : Unseen s t) (hBefore : Deployed sha256 s) (hAfter : Deployed sha256 t) :
    executeModule sha256 t.files = executeModule sha256 s.files := by
  have hSame := currentDigest_congr h.current
  cases hDigest : currentDigest s.files with
  | none => simp only [executeModule, hSame, hDigest]
  | some digest =>
    obtain ⟨bytes, hFile⟩ := hBefore.current digest hDigest
    rw [hBefore.execute hDigest hFile,
      hAfter.execute (hSame.trans hDigest) (h.modules _ _ hFile)]

/-- Other files than the modules and `current.sha256` do not matter. -/
theorem Deployed.same (h : Deployed sha256 s)
    (hModules : ∀ digest, t.files (.module digest) = s.files (.module digest))
    (hCurrent : t.files .currentSha256 = s.files .currentSha256)
    (hTransferred : ∀ bytes ∈ s.transferred, bytes ∈ t.transferred) : Deployed sha256 t where
  modules digest bytes hFile := by
    obtain ⟨hHash, hBytes⟩ := h.modules digest bytes (hModules digest ▸ hFile)
    exact ⟨hHash, hTransferred _ hBytes⟩
  current digest hDigest := by
    rw [hModules]
    exact h.current digest (currentDigest_congr hCurrent ▸ hDigest)

/-- A verified module in its own file. -/
theorem Deployed.stored (h : Deployed sha256 s) (hTransferred : data ∈ s.transferred)
    (hModule : files (.module (hexdigest (sha256 data))) = some data)
    (hOther : ∀ digest, digest ≠ hexdigest (sha256 data) →
      files (.module digest) = s.files (.module digest))
    (hCurrent : files .currentSha256 = s.files .currentSha256) :
    Deployed sha256 { s with files := files } where
  modules digest bytes hFile := by
    by_cases hDigest : digest = hexdigest (sha256 data)
    · subst hDigest
      cases hFile.symm.trans hModule
      exact ⟨rfl, hTransferred⟩
    · exact h.modules digest bytes (hOther digest hDigest ▸ hFile)
  current digest hDigest := by
    by_cases hSame : digest = hexdigest (sha256 data)
    · subst hSame
      exact ⟨data, hModule⟩
    · show ∃ bytes, files (.module digest) = some bytes
      rw [hOther digest hSame]
      exact h.current digest (currentDigest_congr hCurrent ▸ hDigest)

/-! ### The steps of `load` -/

/-- The steps that change no file. -/
def BoardCall.reads : BoardCall → Bool
  | .curl .. | .mv .. | .printf .. => false
  | _ => true

theorem boardDoes_reads {step : BoardCall} {ok : Bool} (hReads : step.reads = true)
    (h : boardDoes sha256 s step ok t) : t = s := by
  cases step with
  | curl => cases hReads
  | mv => cases hReads
  | printf => cases hReads
  | testSize => exact h.1
  | testHash => exact h.1
  | _ => exact h

variable {I P : Board → Prop} {step : BoardCall} {steps : List BoardCall}

/-- The steps keep `I`, wherever they stop, and have `P` when all have succeeded. -/
abbrev Chained (sha256 : List UInt8 → List UInt8) (I P : Board → Prop) (p : BoardProgram Bool)
    (s : Board) : Prop :=
  p.Keeps (boardDoes sha256) unbroken I (fun _ _ => True) (fun ok t => ok = true → P t) s

theorem chained_nil (hI : I s) (hP : P s) : Chained sha256 I P (allOf []) s := ⟨hI, fun _ => hP⟩

theorem chained_cons (hI : I s) (hFailed : ∀ t, boardDoes sha256 s step false t → I t)
    (hNext : ∀ t, boardDoes sha256 s step true t → Chained sha256 I P (allOf steps) t) :
    Chained sha256 I P (allOf (step :: steps)) s := by
  refine ⟨hI, trivial, fun _ => False.elim, fun ok t hDoes => ?_⟩
  cases ok with
  | true => exact hNext t hDoes
  | false => exact ⟨hFailed t hDoes, nofun⟩

theorem chained_reads (step : BoardCall) (hReads : step.reads = true) (hI : I s)
    (hNext : boardDoes sha256 s step true s → Chained sha256 I P (allOf steps) s) :
    Chained sha256 I P (allOf (step :: steps)) s := by
  refine chained_cons hI (fun t hDoes => ?_) fun t hDoes => ?_
  · rwa [boardDoes_reads hReads hDoes]
  · obtain rfl := boardDoes_reads hReads hDoes
    exact hNext hDoes

theorem curl_does {start : Board} {ok : Bool} (hDeployed : Deployed sha256 s)
    (hUnseen : Unseen start s)
    (hDoes : boardDoes sha256 s (.curl (.incoming digest nonce) data) ok t) :
    (Deployed sha256 t ∧ Unseen start t) ∧
      (ok = true → t.files (.incoming digest nonce) = some data → data ∈ t.transferred) := by
  rcases hDoes with ⟨rfl, rfl⟩ | ⟨bytes, rfl⟩
  · exact ⟨⟨hDeployed, hUnseen⟩, nofun⟩
  have hModule : ∀ d, s.files.put (.incoming digest nonce) bytes (.module d) =
      s.files (.module d) := fun d => Directory.put_of_ne (by nofun) _ _
  have hCurrent : s.files.put (.incoming digest nonce) bytes .currentSha256 =
      s.files .currentSha256 := Directory.put_of_ne (by nofun) _ _
  refine ⟨⟨hDeployed.same hModule hCurrent fun held hHeld => ?_, ?_⟩, ?_⟩
  · dsimp only
    split
    · exact List.mem_cons_of_mem _ hHeld
    · exact hHeld
  · exact ⟨hCurrent.trans hUnseen.current,
      fun d held hHeld => (hModule d).trans (hUnseen.modules d held hHeld)⟩
  · intro _ hFile
    have hBytes : s.files.put (.incoming digest nonce) bytes (.incoming digest nonce) =
        some bytes := Directory.put_self ..
    obtain rfl : bytes = data := Option.some.inj (hBytes.symm.trans hFile)
    simp

theorem mv_does (hCollision : ∀ a b, sha256 a = sha256 b → a = b) {start : Board} {ok : Bool}
    (hDeployed : Deployed sha256 s) (hUnseen : Unseen start s) (hTransferred : data ∈ s.transferred)
    (hFile : s.files (.incoming (hexdigest (sha256 data)) nonce) = some data)
    (hDoes : boardDoes sha256 s (.mv (.incoming (hexdigest (sha256 data)) nonce)
      (.module (hexdigest (sha256 data)))) ok t) :
    (Deployed sha256 t ∧ Unseen start t) ∧
      (ok = true → t.files (.module (hexdigest (sha256 data))) = some data) := by
  rcases hDoes with ⟨rfl, rfl⟩ | ⟨-, rfl, rfl⟩
  · exact ⟨⟨hDeployed, hUnseen⟩, nofun⟩
  generalize hIncoming : BoardFile.incoming (hexdigest (sha256 data)) nonce = incoming at hFile ⊢
  have hNew : s.files.rename incoming (.module (hexdigest (sha256 data)))
      (.module (hexdigest (sha256 data))) = some data := by
    subst hIncoming
    exact (Directory.rename_new (by nofun) _).trans hFile
  have hOther : ∀ d, d ≠ hexdigest (sha256 data) →
      s.files.rename incoming (.module (hexdigest (sha256 data))) (.module d) =
        s.files (.module d) := by
    intro d hd
    subst hIncoming
    exact Directory.rename_of_ne (by nofun) (fun hEq => hd (BoardFile.module.inj hEq)) _
  have hCurrent : s.files.rename incoming (.module (hexdigest (sha256 data))) .currentSha256 =
      s.files .currentSha256 := by
    subst hIncoming
    exact Directory.rename_of_ne (by nofun) (by nofun) _
  refine ⟨⟨hDeployed.stored hTransferred hNew hOther hCurrent, hCurrent.trans hUnseen.current, ?_⟩,
    fun _ => hNew⟩
  intro d held hHeld
  have hKept := hUnseen.modules d held hHeld
  by_cases hd : d = hexdigest (sha256 data)
  · subst hd
    -- the file of that digest can only have been the same
    obtain ⟨hSame, -⟩ := hDeployed.modules _ _ hKept
    rw [hCollision _ _ (hexdigest_injective hSame)]
    exact hNew
  · exact (hOther d hd).trans hKept

/-- The transfer, the two tests and the move: until the end nothing changes for `execute`, and then
the module is in its own file. -/
theorem transfer_chained (data : List UInt8) (nonce : List Char)
    (hCollision : ∀ a b, sha256 a = sha256 b → a = b) {start : Board}
    (hDeployed : Deployed sha256 s) (hUnseen : Unseen start s) :
    Chained sha256 (fun t => Deployed sha256 t ∧ Unseen start t)
      (fun t => t.files (.module (hexdigest (sha256 data))) = some data)
      (allOf [.curl (.incoming (hexdigest (sha256 data)) nonce) data,
        .testSize (.incoming (hexdigest (sha256 data)) nonce) data.length,
        .testHash (.incoming (hexdigest (sha256 data)) nonce) (hexdigest (sha256 data)),
        .mv (.incoming (hexdigest (sha256 data)) nonce) (.module (hexdigest (sha256 data)))]) s := by
  refine chained_cons ⟨hDeployed, hUnseen⟩
    (fun t hDoes => (curl_does hDeployed hUnseen hDoes).1) fun t hDoes => ?_
  obtain ⟨⟨hDeployed, hUnseen⟩, hTransferred⟩ := curl_does hDeployed hUnseen hDoes
  refine chained_reads _ rfl ⟨hDeployed, hUnseen⟩ fun _ => ?_
  refine chained_reads _ rfl ⟨hDeployed, hUnseen⟩ fun hDoes => ?_
  -- the hash test leaves only the module's own bytes
  obtain ⟨bytes, hFile, hHash⟩ := hDoes.2 rfl
  obtain rfl : bytes = data := hCollision _ _ (hexdigest_injective hHash)
  have hMove : ∀ ok u, boardDoes sha256 t _ ok u → _ := fun ok u =>
    mv_does hCollision hDeployed hUnseen (hTransferred rfl hFile) hFile
  refine chained_cons ⟨hDeployed, hUnseen⟩ (fun u hDoes => (hMove _ u hDoes).1) fun u hDoes => ?_
  exact chained_nil (hMove _ u hDoes).1 ((hMove _ u hDoes).2 rfl)

theorem storeModule_chained (hCollision : ∀ a b, sha256 a = sha256 b → a = b)
    (hDeployed : Deployed sha256 s) :
    Chained sha256 (fun t => Deployed sha256 t ∧ Unseen s t)
      (fun t => t.files (.module (hexdigest (sha256 data))) = some data)
      (storeModule storage data (hexdigest (sha256 data)) nonce) s := by
  have hHere := And.intro hDeployed (Unseen.refl s)
  have hTransfer := transfer_chained data nonce hCollision hDeployed (.refl s)
  have hPrepared := chained_reads .boardIpv4 rfl hHere fun _ =>
    chained_reads .prepareLaunch rfl hHere fun _ =>
      chained_reads .mkdir rfl hHere fun _ => hTransfer
  cases storage with
  | ram => exact hPrepared
  | sd => exact chained_reads .mount rfl hHere fun _ => hPrepared

/-- What `execute --module` may start when a write of `current.sha256` was begun. -/
def Unsure (sha256 : List UInt8 → List UInt8) (data : List UInt8) (s t : Board) : Prop :=
  executeModule sha256 t.files = executeModule sha256 s.files ∨
    executeModule sha256 t.files = none ∨ executeModule sha256 t.files = some data

theorem printf_digest {ok : Bool} (hDigest : IsDigest (hexdigest (sha256 data)))
    (hDeployed : Deployed sha256 s) (hModule : s.files (.module (hexdigest (sha256 data))) = some data)
    (hDoes : boardDoes sha256 s (.printf (hexdigest (sha256 data)) .currentSha256) ok t) :
    (Deployed sha256 t ∧ Unsure sha256 data s t) ∧
      (ok = true → executeModule sha256 t.files = some data) := by
  rcases hDoes with ⟨rfl, rfl⟩ | ⟨content, hPrefix, hWhole, rfl⟩
  · exact ⟨⟨hDeployed, .inl rfl⟩, nofun⟩
  have hContent : s.files.put .currentSha256 content .currentSha256 = some content :=
    Directory.put_self ..
  have hModules : ∀ d, s.files.put .currentSha256 content (.module d) = s.files (.module d) :=
    fun d => Directory.put_of_ne (by nofun) _ _
  have hTorn := currentDigest_torn hDigest hContent hPrefix
  have hAfter : Deployed sha256 { s with files := s.files.put .currentSha256 content } :=
    { modules := fun d bytes hFile => hDeployed.modules d bytes (hModules d ▸ hFile)
      current := fun d hCurrent => by
        rcases hTorn with hNone | hSome
        · cases hNone.symm.trans hCurrent
        · cases hSome.symm.trans hCurrent
          exact ⟨data, (hModules _).trans hModule⟩ }
  refine ⟨⟨hAfter, .inr ?_⟩, fun hOk => ?_⟩
  · rcases hTorn with hNone | hSome
    · apply Or.inl
      simp only [executeModule, hNone]
    · exact .inr (hAfter.execute hSome ((hModules _).trans hModule))
  · have hBytes : content = digestBytes (hexdigest (sha256 data)) ++ List.replicate 1 0x0a := by
      rw [hWhole hOk, ← encode_digest hDigest.hex]
      exact List.flatMap_append
    exact hAfter.execute (currentDigest_written hDigest 1 (hBytes ▸ hContent))
      ((hModules _).trans hModule)

theorem activateModule_chained (hDigest : IsDigest (hexdigest (sha256 data)))
    (hDeployed : Deployed sha256 s)
    (hModule : s.files (.module (hexdigest (sha256 data))) = some data) :
    Chained sha256 (fun t => Deployed sha256 t ∧ Unsure sha256 data s t)
      (fun t => executeModule sha256 t.files = some data)
      (activateModule (hexdigest (sha256 data)) destination) s := by
  have hFirst : ∀ ok t, boardDoes sha256 s _ ok t → _ := fun ok t =>
    printf_digest hDigest hDeployed hModule
  refine chained_cons ⟨hDeployed, .inl rfl⟩ (fun t hDoes => (hFirst _ t hDoes).1) fun t hDoes => ?_
  obtain ⟨⟨hDeployed, hUnsure⟩, hExecute⟩ := hFirst _ t hDoes
  have hExecute := hExecute rfl
  -- `current.path` is not read by `execute`
  have hSecond : ∀ ok u, boardDoes sha256 t (.printf destination .currentPath) ok u →
      Deployed sha256 u ∧ executeModule sha256 u.files = some data := by
    rintro ok u (⟨rfl, -⟩ | ⟨content, -, -, rfl⟩)
    · exact ⟨hDeployed, hExecute⟩
    have hModules : ∀ d, t.files.put .currentPath content (.module d) = t.files (.module d) :=
      fun d => Directory.put_of_ne (by nofun) _ _
    have hCurrent : t.files.put .currentPath content .currentSha256 = t.files .currentSha256 :=
      Directory.put_of_ne (by nofun) _ _
    have hAfter : Deployed sha256 { t with files := t.files.put .currentPath content } :=
      hDeployed.same hModules hCurrent fun _ h => h
    have hUnseen : Unseen t { t with files := t.files.put .currentPath content } :=
      ⟨hCurrent, fun d bytes hFile => (hModules d).trans hFile⟩
    exact ⟨hAfter, (hUnseen.execute hDeployed hAfter).trans hExecute⟩
  refine chained_cons ⟨hDeployed, hUnsure⟩ (fun u hDoes => ?_) fun u hDoes => ?_
  · obtain ⟨hDeployed, hExecute⟩ := hSecond _ u hDoes
    exact ⟨hDeployed, .inr (.inr hExecute)⟩
  · obtain ⟨hDeployed, hExecute⟩ := hSecond _ u hDoes
    have hHere := And.intro hDeployed (Or.inr (Or.inr hExecute) : Unsure sha256 data s u)
    exact chained_reads _ rfl hHere fun _ => chained_nil hHere hExecute

/-! ### Runs -/

/-- A load that is left anywhere was left before or after it touched `current.sha256`. -/
theorem load_leaves (hModule : readModule data = some data)
    (hPath : deploymentPath storage name (hexdigest (sha256 data)) = some destination)
    (hLeaves : (loadModule storage data (hexdigest (sha256 data)) destination nonce).Leaves
      (boardDoes sha256) unbroken s t) :
    LoadStep sha256 storage name s (.failedStoring data) t ∨
      LoadStep sha256 storage name s (.failedActivating data) t := by
  rcases leaves_bind hLeaves with hStoring | ⟨ok, u, hRun, hRest⟩
  · exact .inl (.failedStoring hModule hPath hStoring)
  cases ok with
  | true => exact .inr (.failedActivating hModule hPath hRun hRest)
  | false =>
    cases hRest with
    | here => exact .inl (.failedStoring hModule hPath hRun.leaves)

/-- What a load attempt does to what `execute --module` starts. -/
def LoadEvent.Changes (before after : Option (List UInt8)) : LoadEvent → Prop
  | .succeeded data => after = some data
  | .failedStoring _ => after = before
  | .failedActivating data => after = before ∨ after = none ∨ after = some data

theorem deployed_step (hCollision : ∀ a b, sha256 a = sha256 b → a = b) {e : LoadEvent}
    (hDeployed : Deployed sha256 s) (hStep : LoadStep sha256 storage name s e t) :
    Deployed sha256 t ∧
      e.Changes (executeModule sha256 s.files) (executeModule sha256 t.files) := by
  cases hStep with
  | succeeded hModule hPath hRun =>
    obtain ⟨ok, u, hStored, hActivated⟩ := runs_bind hRun
    cases ok with
    | false => cases hActivated
    | true =>
      obtain ⟨⟨hMid, -⟩, hFile⟩ := hStored.keeps (storeModule_chained hCollision hDeployed)
      obtain ⟨⟨hDeployed, -⟩, hExecute⟩ := Runs.keeps hActivated
        (activateModule_chained (deploymentPath_digest hPath) hMid (hFile rfl))
      exact ⟨hDeployed, hExecute rfl⟩
  | failedStoring hModule hPath hLeaves =>
    obtain ⟨hAfter, hUnseen⟩ := hLeaves.keeps (storeModule_chained hCollision hDeployed)
    exact ⟨hAfter, hUnseen.execute hDeployed hAfter⟩
  | failedActivating hModule hPath hRun hLeaves =>
    obtain ⟨⟨hMid, hUnseen⟩, hFile⟩ := hRun.keeps (storeModule_chained hCollision hDeployed)
    obtain ⟨hAfter, hUnsure⟩ := hLeaves.keeps
      (activateModule_chained (deploymentPath_digest hPath) hMid (hFile rfl))
    refine ⟨hAfter, ?_⟩
    rwa [Unsure, hUnseen.execute hDeployed hMid] at hUnsure

/-- The module of the last load that reported success. -/
def lastLoaded (es : List LoadEvent) : Option (List UInt8) :=
  es.foldl (fun loaded e => match e with
    | .succeeded data => some data
    | _ => loaded) none

theorem deployed_start : Deployed sha256 ⟨fun _ => none, []⟩ where
  modules _ _ hFile := by cases hFile
  current _ hDigest := by cases hDigest

theorem deployed_run (hCollision : ∀ a b, sha256 a = sha256 b → a = b) {es : List LoadEvent}
    (hStart : (deploySystem sha256 storage name).Start s)
    (hRun : (deploySystem sha256 storage name).Run s es t) :
    Deployed sha256 t ∧ ((∀ data, LoadEvent.failedActivating data ∉ es) →
      executeModule sha256 t.files = lastLoaded es) := by
  induction hRun with
  | nil =>
    obtain rfl : _ = Board.mk _ _ := hStart
    exact ⟨deployed_start, fun _ => rfl⟩
  | @snoc t u es e _ hStep ih =>
    obtain ⟨hDeployed, hLast⟩ := ih
    obtain ⟨hAfter, hChanges⟩ := deployed_step hCollision hDeployed hStep
    refine ⟨hAfter, fun hEvents => ?_⟩
    have hBefore := hLast fun data hData => hEvents data (List.mem_append_left _ hData)
    rw [lastLoaded, List.foldl_append]
    cases e with
    | succeeded data => exact hChanges
    | failedStoring data => exact Eq.trans hChanges hBefore
    | failedActivating data => exact absurd (by simp) (hEvents data)

/-! ### Loads whose steps succeed -/

/-- The module in its own file. -/
def Board.stored (s : Board) (digest nonce : List Char) (data : List UInt8) : Board :=
  { files := (s.files.put (.incoming digest nonce) data).rename (.incoming digest nonce)
      (.module digest)
    transferred := data :: s.transferred }

/-- The digest and the path of the current module. -/
def Board.activated (s : Board) (digest destination : List Char) : Board :=
  { files := (s.files.put .currentSha256 (encode (digest ++ ['\n']))).put .currentPath
      (encode (destination ++ ['\n']))
    transferred := s.transferred }

theorem allOf_done (s : Board) : (allOf []).Runs (boardDoes sha256) s true s := .ret s true

theorem allOf_runs (step : BoardCall) (hDoes : boardDoes sha256 s step true t)
    (hRun : (allOf steps).Runs (boardDoes sha256) t true u) :
    (allOf (step :: steps)).Runs (boardDoes sha256) s true u := .call true hDoes hRun

theorem printf_succeeds (text : List Char) (file : BoardFile) :
    boardDoes sha256 s (.printf text file) true
      { s with files := s.files.put file (encode (text ++ ['\n'])) } :=
  .inr ⟨_, List.prefix_refl _, fun _ => rfl, rfl⟩

theorem storeModule_runs (sha256 : List UInt8 → List UInt8) (storage : Storage) (s : Board)
    (data : List UInt8) (nonce : List Char) :
    (storeModule storage data (hexdigest (sha256 data)) nonce).Runs (boardDoes sha256) s true
      (s.stored (hexdigest (sha256 data)) nonce data) := by
  let incoming := BoardFile.incoming (hexdigest (sha256 data)) nonce
  let transferred : Board := ⟨s.files.put incoming data, data :: s.transferred⟩
  have hFile : transferred.files incoming = some data := Directory.put_self ..
  have hCurl : boardDoes sha256 s (.curl incoming data) true transferred :=
    .inr ⟨data, by simp [transferred]⟩
  have hTransfer : (allOf _).Runs (boardDoes sha256) s true _ :=
    allOf_runs _ hCurl <| allOf_runs (.testSize incoming data.length)
      ⟨rfl, fun _ => ⟨data, hFile, rfl⟩⟩ <|
    allOf_runs (.testHash incoming (hexdigest (sha256 data)))
      ⟨rfl, fun _ => ⟨data, hFile, rfl⟩⟩ <|
    allOf_runs (.mv incoming (.module (hexdigest (sha256 data))))
      (.inr ⟨by rw [hFile]; rfl, rfl, rfl⟩) (allOf_done _)
  have hPrepared := allOf_runs .boardIpv4 rfl <|
    allOf_runs .prepareLaunch rfl <| allOf_runs .mkdir rfl hTransfer
  cases storage with
  | ram => exact hPrepared
  | sd => exact allOf_runs .mount rfl hPrepared

theorem loadModule_runs (sha256 : List UInt8 → List UInt8) (storage : Storage) (s : Board)
    (data : List UInt8) (destination nonce : List Char) :
    (loadModule storage data (hexdigest (sha256 data)) destination nonce).Runs (boardDoes sha256) s
      true ((s.stored (hexdigest (sha256 data)) nonce data).activated (hexdigest (sha256 data))
        destination) := by
  apply (storeModule_runs sha256 storage s data nonce).bind
  apply allOf_runs _ (printf_succeeds _ _)
  apply allOf_runs _ (printf_succeeds _ _)
  exact allOf_runs .served rfl (allOf_done _)

/-- `execute --module` only starts what was transferred in full and has the digest of
`current.sha256`.  As long as no load fails after it has begun to write that file, it is the module
of the last load that reported success; one that does fail there leaves what was started before, no
module, or its own. -/
theorem execute_deployed (hCollision : ∀ a b, sha256 a = sha256 b → a = b) {es : List LoadEvent}
    (hStart : (deploySystem sha256 storage name).Start s)
    (hRun : (deploySystem sha256 storage name).Run s es t) :
    (∀ bytes, executeModule sha256 t.files = some bytes →
      bytes ∈ t.transferred ∧ currentDigest t.files = some (hexdigest (sha256 bytes))) ∧
    ((∀ data, LoadEvent.failedActivating data ∉ es) →
      executeModule sha256 t.files = lastLoaded es) ∧
    (∀ e u, (deploySystem sha256 storage name).Step t e u →
      e.Changes (executeModule sha256 t.files) (executeModule sha256 u.files)) ∧
    ∀ data destination nonce u, readModule data = some data →
      deploymentPath storage name (hexdigest (sha256 data)) = some destination →
      (loadModule storage data (hexdigest (sha256 data)) destination nonce).Leaves
        (boardDoes sha256) unbroken t u →
      (deploySystem sha256 storage name).Step t (.failedStoring data) u ∨
        (deploySystem sha256 storage name).Step t (.failedActivating data) u := by
  obtain ⟨hDeployed, hLast⟩ := deployed_run hCollision hStart hRun
  refine ⟨fun bytes hExecute => hDeployed.executed hExecute, hLast, fun e u hStep => ?_, ?_⟩
  · exact (deployed_step hCollision hDeployed hStep).2
  · exact fun data destination nonce u hModule hPath hLeaves => load_leaves hModule hPath hLeaves

/-! ### An example -/

/-- The SHA-256 of `emptyWasm`, and some longer text for any other data. -/
def sampleSha256 (data : List UInt8) : List UInt8 :=
  if data = emptyWasm then emptyWasmDigest else List.replicate 33 0 ++ data

theorem sampleSha256_injective : ∀ a b, sampleSha256 a = sampleSha256 b → a = b := by
  have hOther : ∀ data : List UInt8, emptyWasmDigest ≠ List.replicate 33 0 ++ data := by
    intro data hEq
    have hLength := congrArg List.length hEq
    rw [List.length_append, List.length_replicate] at hLength
    have hDigest : emptyWasmDigest.length = 32 := rfl
    omega
  intro a b h
  unfold sampleSha256 at h
  split at h <;> split at h
  · next ha hb => rw [ha, hb]
  · exact absurd h (hOther b)
  · exact absurd h.symm (hOther a)
  · exact List.append_cancel_left h

def sampleDigest : List Char := hexdigest emptyWasmDigest

def sampleDestination : List Char :=
  deploymentDirectory .ram ['a', 'p', 'p'] ++ '/' :: sampleDigest ++ ".wasm".toList

theorem sample_module : readModule emptyWasm = some emptyWasm := by decide

theorem sample_path : deploymentPath .ram ['a', 'p', 'p'] (hexdigest (sampleSha256 emptyWasm)) =
    some sampleDestination := by decide

/-- The board after one load of `emptyWasm`. -/
def sampleBoard : Board :=
  (Board.stored ⟨fun _ => none, []⟩ (hexdigest (sampleSha256 emptyWasm)) [] emptyWasm).activated
    (hexdigest (sampleSha256 emptyWasm)) sampleDestination

theorem sample_load : (deploySystem sampleSha256 .ram ['a', 'p', 'p']).Run ⟨fun _ => none, []⟩
    [.succeeded emptyWasm] sampleBoard :=
  .snoc (.nil _) (.succeeded sample_module sample_path (loadModule_runs ..))

theorem execute_deployed_sample : executeModule sampleSha256 sampleBoard.files = some emptyWasm :=
  (execute_deployed sampleSha256_injective rfl sample_load).2.1 (by simp)

/-- A load that fails in the write of `current.sha256` leaves nothing to start. -/
theorem failed_load_observed :
    ∃ s t, (deploySystem sampleSha256 .ram ['a', 'p', 'p']).Run ⟨fun _ => none, []⟩
        [.succeeded emptyWasm] s ∧
      (loadModule .ram emptyWasm (hexdigest (sampleSha256 emptyWasm)) sampleDestination []).Runs
        (boardDoes sampleSha256) s false t ∧
      executeModule sampleSha256 s.files = some emptyWasm ∧
      executeModule sampleSha256 t.files = none := by
  let stored := sampleBoard.stored (hexdigest (sampleSha256 emptyWasm)) [] emptyWasm
  refine ⟨sampleBoard, { stored with files := stored.files.put .currentSha256 [] }, sample_load,
    ?_, ?_, ?_⟩
  · apply (storeModule_runs sampleSha256 .ram sampleBoard emptyWasm []).bind
    exact .call false (.inr ⟨[], List.nil_prefix, nofun, rfl⟩) (.ret _ false)
  · exact (deployed_run sampleSha256_injective rfl sample_load).2 (by simp)
  · have hTorn : stored.files.put .currentSha256 [] .currentSha256 = some [] :=
      Directory.put_self ..
    have hDigest : currentDigest (stored.files.put .currentSha256 []) = none := by
      simp only [currentDigest, hTorn]
      rfl
    simp only [executeModule, hDigest]

end Esp32Fx.Tools
