import Esp32Fx.Tools.HostRules

/-! The backup of the stock flash.  From the first run on, either nothing has been written and no
digest is recorded, or the backup holds the stock flash; so the image is only ever written over a
board whose stock flash is safe. -/

namespace Esp32Fx.Tools

open Lib Lib.Py Program

variable {sha256 : List UInt8 → List UInt8} {stock : List UInt8} {s t : World}

/-! ### The invariant -/

/-- Before the first record of a digest the flash is the stock flash; from then on the backup is. -/
def BackedUp (stock : List UInt8) (s : World) : Prop :=
  (s.files .digest = none ∧ s.flash = stock) ∨
    (s.files .backup = some stock ∧ stock.length = boardFlashBytes)

/-- The backup holds the stock flash, and its digest is recorded. -/
structure Secured (sha256 : List UInt8 → List UInt8) (stock : List UInt8) (s : World) : Prop where
  backup : s.files .backup = some stock
  length : stock.length = boardFlashBytes
  digest : ∃ text, s.files .digest = some (encode text) ∧ strip text = hexdigest (sha256 stock)

theorem backedUp_stable : Stable (BackedUp stock) := by
  intro s t hSteady h
  simpa only [BackedUp, hSteady.files, hSteady.flash] using h

theorem Steady.secured (hSteady : Steady s t) (h : Secured sha256 stock s) :
    Secured sha256 stock t := by
  refine ⟨?_, h.length, ?_⟩
  · rw [hSteady.files]
    exact h.backup
  · rw [hSteady.files]
    exact h.digest

/-- A digest is recorded for the backup only. -/
theorem BackedUp.of_digest (h : BackedUp stock s) (hDigest : s.files .digest ≠ none) :
    s.files .backup = some stock ∧ stock.length = boardFlashBytes :=
  h.resolve_left fun hNone => hDigest hNone.1

theorem BackedUp.of_no_backup (h : BackedUp stock s) (hBackup : s.files .backup = none) :
    s.files .digest = none ∧ s.flash = stock :=
  h.resolve_right fun hKept => by rw [hBackup] at hKept; cases hKept.1

/-! ### The scripts -/

/-- The calls that leave the flash, the backup and its digest alone. -/
def HostCall.spares : HostCall → Prop
  | .writeText file _ | .unlink file => file ≠ .backup ∧ file ≠ .digest
  | .replace old new => (old ≠ .backup ∧ old ≠ .digest) ∧ new ≠ .backup ∧ new ≠ .digest
  | .readFlash _ | .writeImage => False
  | _ => True

/-- Nothing has changed in the flash, the backup and its digest. -/
structure Spared (s t : World) : Prop where
  flash : t.flash = s.flash
  backup : t.files .backup = s.files .backup
  digest : t.files .digest = s.files .digest

theorem Spared.backedUp (h : Spared s t) (hBackedUp : BackedUp stock s) : BackedUp stock t := by
  simpa only [BackedUp, h.flash, h.backup, h.digest] using hBackedUp

theorem Steady.spared (h : Steady s t) : Spared s t :=
  ⟨h.flash, by rw [h.files], by rw [h.files]⟩

theorem spared_put {file : PrivateFile} (hFile : file ≠ .backup ∧ file ≠ .digest)
    (bytes : List UInt8) : Spared s { s with files := s.files.put file bytes } :=
  ⟨rfl, Function.update_of_ne hFile.1.symm _ _, Function.update_of_ne hFile.2.symm _ _⟩

theorem does_spared {call : HostCall} {x : call.Answer} (hSpares : call.spares)
    (h : does s call x t) : Spared s t := by
  by_cases hIdle : call.changes = false
  · obtain rfl := does_same hIdle h
    exact ⟨rfl, rfl, rfl⟩
  cases call with
  | writeText file text =>
    cases h
    exact spared_put hSpares _
  | replace old new =>
    obtain ⟨-, rfl⟩ := h
    obtain ⟨⟨hOld, hOld'⟩, hNew, hNew'⟩ := hSpares
    refine ⟨rfl, ?_, ?_⟩
    · simp [Directory.rename, Function.update_of_ne hOld.symm, Function.update_of_ne hNew.symm]
    · simp [Directory.rename, Function.update_of_ne hOld'.symm, Function.update_of_ne hNew'.symm]
  | unlink file =>
    obtain ⟨-, rfl⟩ := h
    exact ⟨rfl, Function.update_of_ne hSpares.1.symm _ _, Function.update_of_ne hSpares.2.symm _ _⟩
  | readFlash => exact hSpares.elim
  | writeImage => exact hSpares.elim
  | timeNs =>
    cases h
    exact ⟨rfl, rfl, rfl⟩
  | retypePassword =>
    cases h
    exact ⟨rfl, rfl, rfl⟩
  | connect =>
    obtain ⟨files, rfl, hFiles⟩ := h
    exact ⟨rfl, hFiles _ (by simp), hFiles _ (by simp)⟩
  | checkNetwork =>
    obtain ⟨files, rfl, hFiles⟩ := h
    exact ⟨rfl, hFiles _ (by simp), hFiles _ (by simp)⟩
  | _ => exact absurd rfl hIdle

theorem breaksOff_spared {call : HostCall} (hSpares : call.spares) (h : BreaksOff s call t) :
    Spared s t := by
  cases h with
  | nothing => exact ⟨rfl, rfl, rfl⟩
  | tornText => exact spared_put hSpares _
  | tornBackup => exact hSpares.elim
  | tornFlash => exact hSpares.elim
  | tornNote _ files hCall hFiles => exact ⟨rfl, hFiles _ nofun, hFiles _ nofun⟩

/-- A script that spares the backup keeps it. -/
theorem Only.backedUp {p : HostProgram Unit} (h : p.Only HostCall.spares)
    (hBackedUp : BackedUp stock s) :
    Guarded (BackedUp stock) (Secured sha256 stock) (fun _ _ => True) p s := by
  refine h.keeps ?_ ?_ ?_ hBackedUp
  · rintro _ s hSpares _ rfl
    exact hSpares.elim
  · rintro call s t hSpares hBackedUp ⟨u, hActs, hBreaks⟩
    exact (breaksOff_spared hSpares hBreaks).backedUp (hActs.steady.spared.backedUp hBackedUp)
  · rintro call x s t hSpares hBackedUp ⟨u, hActs, hDoes⟩
    exact (does_spared hSpares hDoes).backedUp (hActs.steady.spared.backedUp hBackedUp)

/-! ### `configure` -/

section

variable {C : HostCall → Prop} {call : HostCall} {α : Type}

theorem only_pure {a : α} : (pure a : HostProgram α).Only C := trivial

theorem only_act (h : C call) : (act call).Only C := ⟨h, fun _ => trivial⟩

theorem only_raiseIf {failed : Prop} [Decidable failed] {message : String}
    (h : C (.raise message)) : (raiseIf failed message).Only C :=
  only_ite ⟨h, nofun⟩ trivial

theorem only_fileExists {file : PrivateFile} (h : C (.exists file)) : (fileExists file).Only C :=
  ⟨h, fun _ => trivial⟩

theorem only_readBytes {file : PrivateFile} (h : C (.readBytes file)) : (readBytes file).Only C :=
  ⟨h, fun _ => trivial⟩

theorem only_answer (call : HostCall) (h : C call) :
    (Program.call call .ret : HostProgram call.Answer).Only C :=
  ⟨h, fun _ => trivial⟩

end

theorem checkArchive_spares {archive : PrivateFile} {old : List UInt8} :
    (checkArchive archive old).Only HostCall.spares := by
  refine only_bind (only_fileExists trivial) fun archived => ?_
  refine only_ite (only_bind (only_readBytes trivial) fun kept => ?_) only_pure
  exact only_raiseIf trivial

theorem archiveAccess_spares : (archiveAccess sha256).Only HostCall.spares := by
  refine only_bind (only_fileExists trivial) fun known => ?_
  refine only_ite (only_bind (only_readBytes trivial) fun old => ?_) only_pure
  refine only_bind checkArchive_spares fun _ => only_bind (only_fileExists trivial) fun archived => ?_
  apply only_ite
  · exact only_act ⟨nofun, nofun⟩
  · exact only_act ⟨⟨nofun, nofun⟩, nofun, nofun⟩

theorem changePassword_spares {serial : List Char} :
    (changePassword sha256 serial).Only HostCall.spares := by
  refine only_bind (only_answer .tokenUrlsafe trivial) fun password => ?_
  refine only_bind (only_fileExists trivial) fun unfinished => ?_
  refine only_bind (only_raiseIf trivial) fun _ => ?_
  refine only_bind (only_act ⟨nofun, nofun⟩) fun _ => ?_
  iterate 4 refine only_bind (only_act trivial) fun _ => ?_
  refine only_bind (only_answer .passwdStatus trivial) fun status => ?_
  refine only_bind (only_raiseIf trivial) fun _ => only_bind archiveAccess_spares fun _ => ?_
  exact only_act ⟨⟨nofun, nofun⟩, nofun, nofun⟩

theorem configure_spares {serial : List Char} {freshImage : Bool} :
    (configure sha256 serial freshImage).Only HostCall.spares := by
  iterate 3 refine only_bind (only_act trivial) fun _ => ?_
  refine only_bind (only_fileExists trivial) fun known => ?_
  refine only_bind (only_ite changePassword_spares only_pure) fun _ => ?_
  exact only_bind (only_act trivial) fun _ => only_act trivial

theorem retireAccess_spares : retireAccess.Only HostCall.spares := by
  refine only_bind (only_fileExists trivial) fun known => only_ite ?_ only_pure
  refine only_bind (only_answer .timeNs trivial) fun now => only_act ?_
  exact ⟨⟨nofun, nofun⟩, nofun, nofun⟩

theorem finishInstall_spares {serial : List Char} :
    (finishInstall sha256 serial).Only HostCall.spares := by
  iterate 2 refine only_bind (only_act trivial) fun _ => ?_
  refine only_bind (only_answer .envFileExists trivial) fun configured => ?_
  exact only_ite configure_spares retireAccess_spares

/-! ### `install` -/

theorem hexDigit_visible (n : Fin 16) : isSpace (hexDigit n) = false := by
  revert n
  decide

theorem hexdigest_visible (digest : List UInt8) : ∀ c ∈ hexdigest digest, isSpace c = false := by
  intro c hc
  obtain ⟨b, -, hb⟩ := List.mem_flatMap.mp hc
  have hByte := b.toNat_lt
  simp only [List.mem_cons, List.not_mem_nil, or_false] at hb
  rcases hb with rfl | rfl
  · exact hexDigit_visible ⟨b.toNat / 16, by omega⟩
  · exact hexDigit_visible ⟨b.toNat % 16, by omega⟩

/-- A backup that passes the checks is the stock flash. -/
theorem checkBackup_guarded (hBackedUp : BackedUp stock s) :
    Guarded (BackedUp stock) (Secured sha256 stock) (fun _ t => Secured sha256 stock t)
      (checkBackup sha256) s := by
  refine guarded_fileExists backedUp_stable hBackedUp fun t hSteady hBackedUp => ?_
  refine guarded_raiseIf backedUp_stable hBackedUp fun hRecorded => ?_
  have hDigest : t.files .digest ≠ none := by
    rw [hSteady.files]
    exact fun hNone => hRecorded (by rw [hNone]; rfl)
  refine guarded_fileSize backedUp_stable hBackedUp fun bytes u hBytes hSteady hBackedUp => ?_
  refine guarded_raiseIf backedUp_stable hBackedUp fun hSize => ?_
  rw [← hSteady.files] at hDigest
  obtain ⟨hBackup, hLength⟩ := hBackedUp.of_digest hDigest
  refine guarded_readBytes backedUp_stable hBackedUp fun bytes v hRead hSteady hBackedUp => ?_
  obtain rfl : stock = bytes := Option.some.inj (hBackup.symm.trans hRead)
  rw [← hSteady.files] at hBackup
  refine guarded_readText backedUp_stable hBackedUp fun text w hText hSteady hBackedUp => ?_
  rw [← hSteady.files] at hBackup hText
  unfold raiseIf
  split
  · exact guarded_raise backedUp_stable hBackedUp
  · next hSame => exact ⟨hBackedUp, hBackup, hLength, text, hText, (not_not.mp hSame).symm⟩

theorem Secured.backedUp (h : Secured sha256 stock s) : BackedUp stock s :=
  .inr ⟨h.backup, h.length⟩

/-- The digest of a verified backup. -/
theorem recordDigest_guarded (hBackup : s.files .backup = some stock)
    (hLength : stock.length = boardFlashBytes) :
    Guarded (BackedUp stock) (Secured sha256 stock) (fun _ t => Secured sha256 stock t)
      (act (.writeText .digest (hexdigest (sha256 stock) ++ ['\n']))) s := by
  have hKept : ∀ u, Steady s u → ∀ digest,
      (u.files.put .digest digest) .backup = some stock := by
    intro u hSteady digest
    rw [← hBackup, ← hSteady.files]
    exact Directory.put_of_ne (fun h => by cases h) _ _
  refine guarded_call backedUp_stable (.inr ⟨hBackup, hLength⟩) nofun ?_ ?_
  · intro u t hSteady hBackedUp hBreak
    cases hBreak with
    | nothing => exact hBackedUp
    | tornText _ _ torn => exact .inr ⟨hKept u hSteady torn, hLength⟩
    | tornNote _ files hCall hFiles => rcases hCall with h | h <;> cases h
  rintro _ u _ hSteady - rfl
  have hRecorded : u.files.put .digest (encode (hexdigest (sha256 stock) ++ ['\n'])) .digest =
      some (encode (hexdigest (sha256 stock) ++ ['\n'])) := Directory.put_self ..
  have hSecured : Secured sha256 stock
      { u with files := u.files.put .digest (encode (hexdigest (sha256 stock) ++ ['\n'])) } :=
    ⟨hKept u hSteady (encode (hexdigest (sha256 stock) ++ ['\n'])), hLength, _, hRecorded,
      strip_line (hexdigest_visible _)⟩
  exact ⟨hSecured.backedUp, hSecured⟩

/-- From the end of `read-flash` on: only the stock flash passes `verify-flash`. -/
theorem verifyBackup_guarded (hBackedUp : BackedUp stock s) (hFlash : s.flash = stock)
    (hLength : stock.length = boardFlashBytes) :
    Guarded (BackedUp stock) (Secured sha256 stock) (fun _ t => Secured sha256 stock t)
      (do
        let size ← fileSize .backup
        raiseIf (size ≠ boardFlashBytes) "Incomplete device backup"
        act (.verifyFlash .backup)
        let bytes ← readBytes .backup
        act (.writeText .digest (hexdigest (sha256 bytes) ++ ['\n']))) s := by
  refine guarded_fileSize backedUp_stable hBackedUp fun kept t hKept hSteady hBackedUp => ?_
  refine guarded_raiseIf backedUp_stable hBackedUp fun hSize => ?_
  rw [← hSteady.files] at hKept
  rw [← hSteady.flash] at hFlash
  refine guarded_idle backedUp_stable rfl hBackedUp fun _ u hSteady hDoes hBackedUp => ?_
  rw [← hSteady.files] at hKept
  rw [← hSteady.flash] at hFlash
  obtain ⟨⟨bytes, hBytes, hVerified⟩, -⟩ := hDoes
  have hStock : u.files .backup = some stock := by
    obtain rfl : kept = bytes := Option.some.inj (hKept.symm.trans hBytes)
    rw [hBytes, hVerified, hFlash, not_not.mp hSize, ← hLength, List.take_length]
  refine guarded_readBytes backedUp_stable hBackedUp fun bytes v hRead hSteady hBackedUp => ?_
  obtain rfl : stock = bytes := Option.some.inj (hStock.symm.trans hRead)
  rw [← hSteady.files] at hStock
  exact recordDigest_guarded hStock hLength

/-- A backup that is made is the stock flash. -/
theorem makeBackup_guarded (hBackedUp : BackedUp stock s) (hBackup : s.files .backup = none)
    (hFlash : s.flash.length = boardFlashBytes) :
    Guarded (BackedUp stock) (Secured sha256 stock) (fun _ t => Secured sha256 stock t)
      (makeBackup sha256) s := by
  obtain ⟨hNone, hStock⟩ := hBackedUp.of_no_backup hBackup
  -- no digest is recorded, and the flash is still the stock flash
  have hRead : ∀ u bytes, Steady s u → BackedUp stock { u with files := u.files.put .backup bytes } := by
    intro u bytes hSteady
    refine .inl ⟨?_, hSteady.flash.trans hStock⟩
    rw [← hNone, ← hSteady.files]
    show u.files.put .backup bytes .digest = u.files .digest
    exact Directory.put_of_ne (fun h => by cases h) _ _
  refine guarded_call backedUp_stable hBackedUp nofun ?_ ?_
  · intro u t hSteady hBackedUp hBreak
    cases hBreak with
    | nothing => exact hBackedUp
    | tornBackup => exact hRead u _ hSteady
    | tornNote _ files hCall hFiles => rcases hCall with h | h <;> cases h
  rintro _ u _ hSteady - ⟨bytes, rfl⟩
  exact verifyBackup_guarded (hRead u bytes hSteady) (hSteady.flash.trans hStock) (hStock ▸ hFlash)

/-- Every run of `install` that gets to the image has secured the stock flash. -/
theorem install_guarded {serial : List Char} (hBackedUp : BackedUp stock s) :
    Guarded (BackedUp stock) (Secured sha256 stock) (fun _ _ => True) (install sha256 serial) s := by
  refine guarded_act backedUp_stable rfl hBackedUp fun _ _ hBackedUp => ?_
  refine guarded_act backedUp_stable rfl hBackedUp fun _ _ hBackedUp => ?_
  refine guarded_flashId backedUp_stable hBackedUp fun probe t _ hProbe hBackedUp => ?_
  refine guarded_raiseIf backedUp_stable hBackedUp fun hFlash => ?_
  refine guarded_raiseIf backedUp_stable hBackedUp fun _ => ?_
  refine guarded_fileExists backedUp_stable hBackedUp fun u hSteady hBackedUp => ?_
  have hLength : u.flash.length = boardFlashBytes := by
    rw [hSteady.flash]
    exact hProbe (by simpa using hFlash)
  have hSaved : Guarded (BackedUp stock) (Secured sha256 stock) (fun _ t => Secured sha256 stock t)
      (if (t.files .backup).isSome = true then checkBackup sha256 else makeBackup sha256) u := by
    split
    · exact checkBackup_guarded hBackedUp
    · next hNone =>
      refine makeBackup_guarded hBackedUp ?_ hLength
      rw [hSteady.files]
      simpa using hNone
  refine keeps_bind (keeps_mono hSaved fun _ t _ hSecured => ?_)
  -- the image is written over a board whose stock flash is safe, and the backup stays
  refine guarded_call backedUp_stable hSecured.backedUp (fun _ => hSecured) ?_ ?_
  · intro u t hSteady hBackedUp hBreak
    have hSecured := hSteady.secured hSecured
    cases hBreak with
    | nothing => exact hBackedUp
    | tornFlash flash password typed hPassword hTyped => exact .inr ⟨hSecured.backup, hSecured.length⟩
    | tornNote _ files hCall hFiles => rcases hCall with h | h <;> cases h
  rintro _ u _ hSteady - ⟨image, -, rfl⟩
  have hSecured := hSteady.secured hSecured
  exact Only.backedUp finishInstall_spares (.inr ⟨hSecured.backup, hSecured.length⟩)

theorem hostRun_guarded (run : HostRun) (hBackedUp : BackedUp stock s) :
    Guarded (BackedUp stock) (Secured sha256 stock) (fun _ _ => True) (run.program sha256) s := by
  cases run with
  | install serial => exact install_guarded hBackedUp
  | configure serial freshImage => exact Only.backedUp configure_spares hBackedUp

/-- Whenever a run gets to the image, whatever runs came before and wherever they were broken off,
the backup is the flash as it was before the first of them, 32 MiB of it, with its digest beside
it. -/
theorem backup_before_write {s₀ : World} {runs : List HostRun} {serial : List Char}
    (hFresh : s₀.files .digest = none)
    (hRuns : (hostSystem sha256 (· = s₀)).Run s₀ runs s)
    (hReaches : (install sha256 serial).Reaches host s .writeImage t) :
    ∃ backup, t.files .backup = some backup ∧ backup.length = 32 * 1024 * 1024 ∧
      backup = s₀.flash ∧ ∃ text, t.files .digest = some (encode text) ∧
        strip text = hexdigest (sha256 backup) := by
  have hBackedUp : BackedUp s₀.flash s := by
    refine hRuns.preserves (I := BackedUp s₀.flash) ?_ (.inl ⟨hFresh, rfl⟩)
    intro u run v hBackedUp hLeaves
    exact Leaves.keeps hLeaves (hostRun_guarded run hBackedUp)
  have hSecured : Secured sha256 s₀.flash t :=
    Reaches.keeps hReaches (install_guarded hBackedUp) rfl
  exact ⟨s₀.flash, hSecured.backup, hSecured.length, rfl, hSecured.digest⟩

section Sample

/-- A board with erased flash, and an empty private directory. -/
def erasedBoard : World :=
  ⟨fun _ => none, List.replicate boardFlashBytes 0xff, defaultPassword, none, []⟩

/-- The SHA-256 of 32 MiB of erased flash. -/
def erasedDigest : List UInt8 :=
  [0x60, 0xf2, 0xef, 0x0f, 0x4c, 0xf4, 0x24, 0x9f, 0x71, 0x31, 0x91, 0xd8, 0x27, 0xfa, 0x96, 0x4e,
    0x07, 0xbd, 0x29, 0xa6, 0x92, 0x83, 0x8c, 0xa5, 0x07, 0x07, 0xb7, 0x29, 0x2e, 0x28, 0x49, 0x4c]

/-- The private directory once the backup of `erasedBoard` is made. -/
def erasedBackup : World :=
  { erasedBoard with
    files := (Directory.put (fun _ => none) .backup erasedBoard.flash).put .digest
      (encode (hexdigest erasedDigest ++ ['\n'])) }

/-- The board whose first run is broken off while it writes the image. -/
def tornBoard : World := { erasedBackup with flash := List.replicate boardFlashBytes 0 }

theorem host_does {call : HostCall} {x : call.Answer} (h : does s call x t) : host s call x t :=
  ⟨s, .waits s, h⟩

/-- The first run makes the backup, and is broken off in the image. -/
theorem erasedBoard_leaves :
    (install (fun _ => erasedDigest) []).Leaves host hostBreaks erasedBoard tornBoard := by
  have hLength : erasedBoard.flash.length = boardFlashBytes := List.length_replicate
  refine .after () (host_does rfl) <| .after () (host_does rfl) ?_
  refine .after (⟨true, true⟩ : Probe) (host_does ⟨fun _ => hLength, rfl⟩) ?_
  refine .after false (host_does ⟨rfl, rfl⟩) ?_
  refine .after () (host_does ⟨erasedBoard.flash, rfl⟩) ?_
  refine .after boardFlashBytes (host_does ⟨⟨_, rfl, hLength.symm⟩, rfl⟩) ?_
  refine .after () (host_does ⟨⟨erasedBoard.flash, rfl, List.take_length.symm⟩, rfl⟩) ?_
  refine .after erasedBoard.flash (host_does ⟨rfl, rfl⟩) <| .after () (host_does rfl) ?_
  exact .during ⟨erasedBackup, .waits _, .tornFlash _ _ _ _ (.inl rfl) (.inl rfl)⟩

/-- The second run passes the checks of the backup, and gets to the image. -/
theorem tornBoard_reaches :
    (install (fun _ => erasedDigest) []).Reaches host tornBoard .writeImage tornBoard := by
  have hLength : tornBoard.flash.length = boardFlashBytes := List.length_replicate
  have hBackup : tornBoard.files .backup = some erasedBoard.flash := rfl
  have hDigest : tornBoard.files .digest = some (encode (hexdigest erasedDigest ++ ['\n'])) := rfl
  have hSize : boardFlashBytes = erasedBoard.flash.length := List.length_replicate.symm
  have hSame : raiseIf (hexdigest erasedDigest ≠ strip (hexdigest erasedDigest ++ ['\n']))
      "Recovery backup checksum mismatch" = pure () := by
    rw [strip_line (hexdigest_visible _)]
    exact if_neg fun h => h rfl
  refine .after () (host_does rfl) <| .after () (host_does rfl) ?_
  refine .after (⟨true, true⟩ : Probe) (host_does ⟨fun _ => hLength, rfl⟩) ?_
  refine .after true (host_does ⟨rfl, rfl⟩) ?_
  refine .after true (host_does ⟨rfl, rfl⟩) ?_
  refine .after boardFlashBytes (host_does ⟨⟨_, hBackup, hSize⟩, rfl⟩) ?_
  refine .after erasedBoard.flash (host_does ⟨hBackup, rfl⟩) ?_
  refine .after (hexdigest erasedDigest ++ ['\n']) (host_does ⟨hDigest, rfl⟩) ?_
  show Program.Reaches host tornBoard ((raiseIf (hexdigest erasedDigest ≠
    strip (hexdigest erasedDigest ++ ['\n'])) "Recovery backup checksum mismatch") >>= fun _ =>
      act .writeImage >>= fun _ => finishInstall (fun _ => erasedDigest) []) _ _
  rw [hSame]
  exact .here _ _ _

/-- The flash is no longer the stock flash, but the backup is. -/
theorem backup_before_write_erased : ∃ backup, tornBoard.files .backup = some backup ∧
    backup.length = 32 * 1024 * 1024 ∧ backup = erasedBoard.flash ∧
    ∃ text, tornBoard.files .digest = some (encode text) ∧
      strip text = hexdigest erasedDigest := by
  have hRun : (hostSystem (fun _ => erasedDigest) (· = erasedBoard)).Run erasedBoard [.install []]
      tornBoard := .snoc (.nil _) erasedBoard_leaves
  exact backup_before_write rfl hRun tornBoard_reaches

end Sample

end Esp32Fx.Tools
