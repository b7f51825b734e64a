import Esp32Fx.Tools.BackupFacts

/-! The root password.  A new password is recorded before the board is told, a record is only moved
to a free name or dropped for an equal one, and a flashed board has the password of the image; so
the password in force is always known.  The archives of `install` are named by the time, so that no
time may be read twice. -/

namespace Esp32Fx.Tools

open Lib Program

variable {sha256 : List UInt8 → List UInt8} {s t : World} {start files files' : Private}

/-! ### Records -/

/-- The files that are access records: the pending one, the one in use, and the archives. -/
def PrivateFile.isRecord : PrivateFile → Bool
  | .access | .pending | .preReflash _ | .beforeInstall _ => true
  | _ => false

/-- A password is in a record. -/
def Recorded (files : Private) (password : Password) : Prop :=
  ∃ file serial, file.isRecord = true ∧ files file = some (encode (accessRecord serial password))

/-- Every record is still there, if under another name. -/
def Kept (files files' : Private) : Prop :=
  ∀ file content, file.isRecord = true → files file = some content →
    ∃ file', file'.isRecord = true ∧ files' file' = some content

theorem Kept.refl (files : Private) : Kept files files :=
  fun file _ hRecord hContent => ⟨file, hRecord, hContent⟩

theorem Kept.trans (h : Kept start files) (h' : Kept files files') : Kept start files' := by
  intro file content hRecord hContent
  obtain ⟨file', hRecord', hContent'⟩ := h file content hRecord hContent
  exact h' file' content hRecord' hContent'

theorem Kept.recorded {password : Password} (h : Kept files files')
    (hRecorded : Recorded files password) : Recorded files' password := by
  obtain ⟨file, serial, hRecord, hContent⟩ := hRecorded
  obtain ⟨file', hRecord', hContent'⟩ := h file _ hRecord hContent
  exact ⟨file', serial, hRecord', hContent'⟩

/-- A file that is no record, or was not there. -/
theorem kept_put {file : PrivateFile} (h : file.isRecord = false ∨ files file = none)
    (bytes : List UInt8) : Kept files (files.put file bytes) := by
  intro other content hRecord hContent
  refine ⟨other, hRecord, ?_⟩
  have hNe : other ≠ file := by
    rintro rfl
    rcases h with hOther | hNone
    · rw [hOther] at hRecord
      cases hRecord
    · rw [hNone] at hContent
      cases hContent
  rw [Directory.put_of_ne hNe, hContent]

/-- A record under a name that was free. -/
theorem kept_rename {old new : PrivateFile} (hNew : new.isRecord = true)
    (hFree : files new = none) (hNe : old ≠ new) : Kept files (files.rename old new) := by
  intro file content hRecord hContent
  by_cases hOld : file = old
  · subst hOld
    refine ⟨new, hNew, ?_⟩
    rw [Directory.rename_new hNe.symm, hContent]
  · have hFile : file ≠ new := by
      rintro rfl
      rw [hFree] at hContent
      cases hContent
    refine ⟨file, hRecord, ?_⟩
    rw [Directory.rename_of_ne hOld hFile, hContent]

/-- A record that is there twice. -/
theorem kept_unlink {file copy : PrivateFile} (hCopy : copy.isRecord = true) (hNe : copy ≠ file)
    (hSame : files copy = files file) : Kept files (files.unlink file) := by
  intro other content hRecord hContent
  by_cases hOther : other = file
  · subst hOther
    refine ⟨copy, hCopy, ?_⟩
    rw [Directory.unlink_of_ne hNe, hSame, hContent]
  · exact ⟨other, hRecord, by rw [Directory.unlink_of_ne hOther, hContent]⟩

/-! ### The invariant -/

/-- The password in force is the image's or recorded, and one that `passwd` may still set is
recorded.  The archives of `install` carry times that have been read. -/
structure Recoverable (s : World) : Prop where
  force : s.password = defaultPassword ∨ Recorded s.files s.password
  typed : ∀ password, s.typed = some password → Recorded s.files password
  times : ∀ now, s.files (.beforeInstall now) ≠ none → now ∈ s.times

/-- The records of `start` are kept as well, if no time has been read twice. -/
def Safe (start : Private) (s : World) : Prop :=
  s.times.Nodup → Recoverable s ∧ Kept start s.files

theorem Recoverable.steady (h : Recoverable s) (hSteady : Steady s t) : Recoverable t where
  force := by
    rw [hSteady.files]
    rcases hSteady.password with hSame | hTyped
    · rw [hSame]
      exact h.force
    · exact .inr (h.typed _ hTyped)
  typed password hTyped := by
    rw [hSteady.files]
    exact h.typed password (hSteady.typed ▸ hTyped)
  times now hArchive := by
    rw [hSteady.files] at hArchive
    rw [hSteady.times]
    exact h.times now hArchive

theorem safe_stable : Stable (Safe start) := by
  intro s t hSteady hSafe hTimes
  obtain ⟨hRecoverable, hKept⟩ := hSafe (hSteady.times ▸ hTimes)
  exact ⟨hRecoverable.steady hSteady, hSteady.files ▸ hKept⟩

/-- Files that change and keep the records. -/
theorem Safe.moved (h : Safe start s) (hKept : Kept s.files files)
    (hTimes : s.times.Nodup → ∀ now, files (.beforeInstall now) ≠ none → now ∈ s.times) :
    Safe start { s with files := files } := by
  intro hNodup
  obtain ⟨hRecoverable, hStart⟩ := h hNodup
  refine ⟨⟨?_, ?_, hTimes hNodup⟩, hStart.trans hKept⟩
  · exact hRecoverable.force.imp_right hKept.recorded
  · exact fun password hTyped => hKept.recorded (hRecoverable.typed password hTyped)

theorem Safe.changed (h : Safe start s) (hKept : Kept s.files files)
    (hArchives : ∀ now, files (.beforeInstall now) ≠ none → s.files (.beforeInstall now) ≠ none) :
    Safe start { s with files := files } :=
  h.moved hKept fun hNodup now hArchive => (h hNodup).1.times now (hArchives now hArchive)

/-- The runs of a script keep the records. -/
abbrev Preserved {α : Type} (start : Private) (Q : α → World → Prop) (p : HostProgram α)
    (s : World) : Prop :=
  Guarded (Safe start) (fun _ => True) Q p s

theorem put_archives {file : PrivateFile} (h : ∀ now, file ≠ .beforeInstall now)
    (bytes : List UInt8) (now : Nat)
    (hArchive : files.put file bytes (.beforeInstall now) ≠ none) :
    files (.beforeInstall now) ≠ none := by
  rwa [Directory.put_of_ne (h now).symm] at hArchive

theorem rename_archives {old new : PrivateFile} (h : ∀ now, new ≠ .beforeInstall now) (now : Nat)
    (hArchive : files.rename old new (.beforeInstall now) ≠ none) :
    files (.beforeInstall now) ≠ none := by
  intro hNone
  apply hArchive
  simp only [Directory.rename, Function.update_apply, (h now).symm, if_false, hNone, ite_self]

/-! ### `configure` -/

/-- A record goes to a free name. -/
theorem preserved_replace {old new : PrivateFile} {Q : Unit → World → Prop} (hSafe : Safe start s)
    (hNew : new.isRecord = true) (hFree : s.files new = none) (hNe : old ≠ new)
    (hArchive : ∀ now, new ≠ .beforeInstall now)
    (hQ : ∀ u, Steady s u → Q () { u with files := u.files.rename old new }) :
    Preserved start Q (act (.replace old new)) s := by
  refine guarded_whole safe_stable rfl hSafe fun _ u t hSteady hSafe hDoes => ?_
  obtain ⟨-, rfl⟩ := hDoes
  rw [← hSteady.files] at hFree
  exact ⟨hSafe.changed (kept_rename hNew hFree hNe) (rename_archives hArchive), hQ u hSteady⟩

/-- The checks of an archive that is there. -/
theorem checkArchive_preserved {archive : PrivateFile} {old : List UInt8} (hSafe : Safe start s) :
    Preserved start
      (fun _ t => Steady s t ∧ ∀ content, t.files archive = some content → content = old)
      (checkArchive archive old) s := by
  refine guarded_fileExists safe_stable hSafe fun t hSteady hSafe => ?_
  split
  · refine guarded_readBytes safe_stable hSafe fun kept u hKept hSteady' hSafe => ?_
    unfold raiseIf
    split
    · exact guarded_raise safe_stable hSafe
    · next hSame =>
      refine ⟨hSafe, hSteady.trans hSteady', fun content hContent => ?_⟩
      rw [hSteady'.files, hKept] at hContent
      cases hContent
      exact not_not.mp hSame
  · next hNone =>
    refine ⟨hSafe, hSteady, fun content hContent => ?_⟩
    rw [hSteady.files] at hContent
    exact absurd (by rw [hContent]; rfl) hNone

/-- The access record in use ends up in an archive, so that its name is free. -/
theorem archiveAccess_preserved (hSafe : Safe start s) :
    Preserved start (fun _ t => t.files .access = none) (archiveAccess sha256) s := by
  refine guarded_fileExists safe_stable hSafe fun t hSteady hSafe => ?_
  split
  swap
  · next hNone =>
    refine ⟨hSafe, ?_⟩
    show t.files .access = none
    rw [hSteady.files]
    simpa using hNone
  refine guarded_readBytes safe_stable hSafe fun old u hOld hSteady hSafe => ?_
  rw [← hSteady.files] at hOld
  refine keeps_bind (keeps_mono (checkArchive_preserved hSafe) fun _ v hSafe hChecked => ?_)
  obtain ⟨hSteady, hSame⟩ := hChecked
  rw [← hSteady.files] at hOld
  refine guarded_fileExists safe_stable hSafe fun w hSteady hSafe => ?_
  rw [← hSteady.files] at hOld hSame ⊢
  split
  · next hArchived =>
    -- the archive has the same record
    obtain ⟨content, hContent⟩ := Option.isSome_iff_exists.mp hArchived
    refine guarded_whole safe_stable rfl hSafe fun _ x y hSteady hSafe hDoes => ?_
    obtain ⟨-, rfl⟩ := hDoes
    rw [← hSteady.files] at hOld hContent hSame
    have hCopy := hContent.trans ((congrArg some (hSame content hContent)).trans hOld.symm)
    refine ⟨hSafe.changed (kept_unlink rfl (fun h => by cases h) hCopy) ?_, ?_⟩
    · intro now hArchive
      rwa [Directory.unlink_of_ne (fun h => by cases h)] at hArchive
    · show x.files.unlink .access .access = none
      exact Directory.unlink_self ..
  · next hNone =>
    refine preserved_replace hSafe rfl (by simpa using hNone) (fun h => by cases h)
      (fun _ h => by cases h) ?_
    intro x hSteady
    show x.files.rename .access (.preReflash ((hexdigest (sha256 old)).take 12)) .access = none
    exact Directory.rename_old ..

/-- The record of a password that the board has not been told yet. -/
theorem changePassword_preserved {serial : List Char} (hSafe : Safe start s) :
    Preserved start (fun _ _ => True) (changePassword sha256 serial) s := by
  refine guarded_tokenUrlsafe safe_stable hSafe fun password t _ hSafe => ?_
  refine guarded_fileExists safe_stable hSafe fun u hSteady hSafe => ?_
  refine guarded_raiseIf safe_stable hSafe fun hFree => ?_
  have hPending : u.files .pending = none := by
    rw [hSteady.files]
    simpa using hFree
  have hPut : ∀ v torn, Steady u v → Safe start v →
      Safe start { v with files := v.files.put .pending torn } := by
    intro v torn hSteady hSafe
    rw [← hSteady.files] at hPending
    exact hSafe.changed (kept_put (.inr hPending) torn) (put_archives (fun _ h => by cases h) torn)
  refine guarded_writeText safe_stable hSafe hPut fun v hSteady hSafe => ?_
  generalize hTold : ({ v with
    files := v.files.put .pending (encode (accessRecord serial password)) } : World) = w at hSafe ⊢
  have hRecorded : Recorded w.files password := by
    have hPut : v.files.put .pending (encode (accessRecord serial password)) .pending =
        some (encode (accessRecord serial password)) := Directory.put_self ..
    subst hTold
    exact ⟨.pending, serial, rfl, hPut⟩
  clear hTold
  -- from here on the board may be told
  refine guarded_act safe_stable rfl hSafe fun x hSteady hSafe => ?_
  rw [← hSteady.files] at hRecorded
  refine guarded_act safe_stable rfl hSafe fun x hSteady hSafe => ?_
  rw [← hSteady.files] at hRecorded
  refine guarded_act safe_stable rfl hSafe fun x hSteady hSafe => ?_
  rw [← hSteady.files] at hRecorded
  refine guarded_whole safe_stable rfl hSafe fun _ x y hSteady hSafe hDoes => ?_
  rw [← hSteady.files] at hRecorded
  obtain rfl := hDoes
  have hTyped : Safe start { x with typed := some password } := by
    intro hNodup
    obtain ⟨hRecoverable, hKept⟩ := hSafe hNodup
    refine ⟨⟨hRecoverable.force, fun other hOther => ?_, hRecoverable.times⟩, hKept⟩
    cases hOther
    exact hRecorded
  refine guarded_passwdStatus safe_stable hTyped fun status y _ hSafe => ?_
  refine guarded_raiseIf safe_stable hSafe fun _ => ?_
  refine keeps_bind (keeps_mono (archiveAccess_preserved hSafe) fun _ z hSafe hFree => ?_)
  exact preserved_replace hSafe rfl hFree (fun h => by cases h) (fun _ h => by cases h)
    fun _ _ => trivial

/-- The calls that reach no record, and tell the board no password. -/
def HostCall.harmless : HostCall → Prop
  | .writeText file _ | .readFlash file => file.isRecord = false
  | .replace .. | .unlink _ | .retypePassword _ => False
  | _ => True

theorem Safe.put {file : PrivateFile} (h : Safe start s) (hFile : file.isRecord = false)
    (bytes : List UInt8) : Safe start { s with files := s.files.put file bytes } := by
  refine h.changed (kept_put (.inl hFile) bytes) (put_archives (fun now hNow => ?_) bytes)
  subst hNow
  cases hFile

/-- The network notes are no records. -/
theorem Safe.notes (h : Safe start s)
    (hFiles : ∀ file, (∀ name, file ≠ .networkNote name) → files file = s.files file) :
    Safe start { s with files := files } := by
  refine h.changed ?_ fun now hArchive => ?_
  · intro file content hRecord hContent
    refine ⟨file, hRecord, (hFiles file ?_).trans hContent⟩
    rintro name rfl
    cases hRecord
  · rwa [hFiles _ fun _ h => by cases h] at hArchive

/-- A board that is flashed, or broken off while it is, has the old password or the image's. -/
theorem Safe.flashed (h : Safe start s) (flash : List UInt8) {password : Password}
    {typed : Option Password} (hPassword : password = s.password ∨ password = defaultPassword)
    (hTyped : typed = s.typed ∨ typed = none) :
    Safe start { s with flash := flash, password := password, typed := typed } := by
  intro hNodup
  obtain ⟨hRecoverable, hKept⟩ := h hNodup
  refine ⟨⟨?_, ?_, hRecoverable.times⟩, hKept⟩
  · rcases hPassword with rfl | rfl
    · exact hRecoverable.force
    · exact .inl rfl
  · rintro other hOther
    rcases hTyped with rfl | rfl
    · exact hRecoverable.typed other hOther
    · cases hOther

theorem harmless_does {call : HostCall} {x : call.Answer} (hCall : call.harmless)
    (hSafe : Safe start s) (h : does s call x t) : Safe start t := by
  by_cases hIdle : call.changes = false
  · rwa [does_same hIdle h]
  cases call with
  | writeText file text =>
    cases h
    exact hSafe.put hCall _
  | replace => exact hCall.elim
  | unlink => exact hCall.elim
  | retypePassword => exact hCall.elim
  | readFlash file =>
    obtain ⟨bytes, rfl⟩ := h
    exact hSafe.put hCall bytes
  | writeImage =>
    obtain ⟨image, -, rfl⟩ := h
    exact hSafe.flashed _ (.inr rfl) (.inr rfl)
  | timeNs =>
    obtain rfl := h
    intro hNodup
    obtain ⟨hRecoverable, hKept⟩ := hSafe (List.nodup_cons.mp hNodup).2
    refine ⟨⟨hRecoverable.force, hRecoverable.typed, fun now hArchive => ?_⟩, hKept⟩
    exact List.mem_cons_of_mem _ (hRecoverable.times now hArchive)
  | connect =>
    obtain ⟨files, rfl, hFiles⟩ := h
    exact hSafe.notes hFiles
  | checkNetwork =>
    obtain ⟨files, rfl, hFiles⟩ := h
    exact hSafe.notes hFiles
  | _ => exact absurd rfl hIdle

theorem harmless_breaksOff {call : HostCall} (hCall : call.harmless) (hSafe : Safe start s)
    (h : BreaksOff s call t) : Safe start t := by
  cases h with
  | nothing => exact hSafe
  | tornText file text torn => exact hSafe.put hCall torn
  | tornBackup file torn => exact hSafe.put hCall torn
  | tornFlash flash password typed hPassword hTyped => exact hSafe.flashed flash hPassword hTyped
  | tornNote _ files hWhich hFiles => exact hSafe.notes hFiles

theorem Only.preserved {p : HostProgram Unit} (h : p.Only HostCall.harmless)
    (hSafe : Safe start s) : Preserved start (fun _ _ => True) p s := by
  refine h.keeps (fun _ _ _ _ _ => trivial) ?_ ?_ hSafe
  · rintro call s t hCall hSafe ⟨u, hActs, hBreaks⟩
    exact harmless_breaksOff hCall (safe_stable _ _ hActs.steady hSafe) hBreaks
  · rintro call x s t hCall hSafe ⟨u, hActs, hDoes⟩
    exact harmless_does hCall (safe_stable _ _ hActs.steady hSafe) hDoes

theorem configure_preserved {serial : List Char} {freshImage : Bool} (hSafe : Safe start s) :
    Preserved start (fun _ _ => True) (configure sha256 serial freshImage) s := by
  refine guarded_act safe_stable rfl hSafe fun _ _ hSafe => ?_
  refine guarded_act safe_stable rfl hSafe fun _ _ hSafe => ?_
  refine guarded_act safe_stable rfl hSafe fun _ _ hSafe => ?_
  have hChanged : ∀ known t, Safe start t → Preserved start (fun _ _ => True)
      (if known = false ∨ freshImage = true then changePassword sha256 serial else pure ()) t := by
    intro known t hSafe
    split
    · exact changePassword_preserved hSafe
    · exact ⟨hSafe, trivial⟩
  refine guarded_fileExists safe_stable hSafe fun t _ hSafe => ?_
  refine keeps_bind (keeps_mono (hChanged _ t hSafe) fun _ u hSafe _ => ?_)
  exact Only.preserved (only_bind (only_act trivial) fun _ => only_act trivial) hSafe

/-! ### `install` -/

theorem checkBackup_harmless : (checkBackup sha256).Only HostCall.harmless := by
  refine only_bind (only_fileExists trivial) fun recorded => ?_
  refine only_bind (only_raiseIf trivial) fun _ => ?_
  refine only_bind (only_answer (.size .backup) trivial) fun size => ?_
  refine only_bind (only_raiseIf trivial) fun _ => ?_
  refine only_bind (only_readBytes trivial) fun bytes => ?_
  exact only_bind (only_answer (.readText .digest) trivial) fun digest => only_raiseIf trivial

theorem makeBackup_harmless : (makeBackup sha256).Only HostCall.harmless := by
  refine only_bind (only_act rfl) fun _ => ?_
  refine only_bind (only_answer (.size .backup) trivial) fun size => ?_
  refine only_bind (only_raiseIf trivial) fun _ => only_bind (only_act trivial) fun _ => ?_
  exact only_bind (only_readBytes trivial) fun bytes => only_act rfl

theorem retireAccess_preserved (hSafe : Safe start s) :
    Preserved start (fun _ _ => True) retireAccess s := by
  refine guarded_fileExists safe_stable hSafe fun t _ hSafe => ?_
  split
  swap
  · exact ⟨hSafe, trivial⟩
  refine guarded_whole safe_stable rfl hSafe fun (now : Nat) u v _ hSafe hDoes => ?_
  have hRead : Safe start v := harmless_does (show HostCall.timeNs.harmless from trivial) hSafe hDoes
  obtain rfl : v = { u with times := now :: u.times } := hDoes
  -- a time that is read for the first time is in the name of no archive
  have hFree : (now :: u.times).Nodup → u.files (.beforeInstall now) = none := by
    intro hNodup
    obtain ⟨hNew, hOld⟩ := List.nodup_cons.mp hNodup
    by_contra hArchive
    exact hNew ((hSafe hOld).1.times now hArchive)
  refine guarded_whole safe_stable rfl hRead fun _ w x hSteady hSafe hDoes => ?_
  obtain ⟨-, rfl⟩ := hDoes
  have hTimes : w.times = now :: u.times := hSteady.times
  refine ⟨fun hNodup => ?_, trivial⟩
  have hFree : w.files (.beforeInstall now) = none := by
    rw [hSteady.files]
    exact hFree (hTimes ▸ hNodup)
  refine hSafe.moved (kept_rename rfl hFree (fun h => by cases h)) (fun hNodup other hArchive => ?_)
    hNodup
  by_cases hOther : other = now
  · rw [hTimes, hOther]
    exact List.mem_cons_self
  · refine (hSafe hNodup).1.times other fun hNone => hArchive ?_
    have hNe : PrivateFile.beforeInstall other ≠ .beforeInstall now := by
      intro h
      injection h with h
      exact hOther h
    simp only [Directory.rename, Function.update_apply, hNe, if_false, hNone, ite_self]

theorem finishInstall_preserved {serial : List Char} (hSafe : Safe start s) :
    Preserved start (fun _ _ => True) (finishInstall sha256 serial) s := by
  refine guarded_act safe_stable rfl hSafe fun _ _ hSafe => ?_
  refine guarded_act safe_stable rfl hSafe fun _ _ hSafe => ?_
  refine guarded_envFileExists safe_stable hSafe fun configured t _ hSafe => ?_
  split
  · exact configure_preserved hSafe
  · exact retireAccess_preserved hSafe

theorem install_preserved {serial : List Char} (hSafe : Safe start s) :
    Preserved start (fun _ _ => True) (install sha256 serial) s := by
  refine guarded_act safe_stable rfl hSafe fun _ _ hSafe => ?_
  refine guarded_act safe_stable rfl hSafe fun _ _ hSafe => ?_
  refine guarded_flashId safe_stable hSafe fun probe t _ _ hSafe => ?_
  refine guarded_raiseIf safe_stable hSafe fun _ => guarded_raiseIf safe_stable hSafe fun _ => ?_
  have hSaved : ∀ saved : Bool, ∀ u, Safe start u → Preserved start (fun _ _ => True)
      (if saved = true then checkBackup sha256 else makeBackup sha256) u :=
    fun saved u hSafe => Only.preserved (only_ite checkBackup_harmless makeBackup_harmless) hSafe
  refine guarded_fileExists safe_stable hSafe fun u _ hSafe => ?_
  refine keeps_bind (keeps_mono (hSaved _ u hSafe) fun _ v hSafe _ => ?_)
  have hWrite : HostCall.writeImage.harmless := trivial
  refine guarded_call safe_stable hSafe (fun _ => trivial)
    (fun w x _ hSafe hBreak => harmless_breaksOff hWrite hSafe hBreak) ?_
  intro _ w x _ hSafe hDoes
  exact finishInstall_preserved (harmless_does hWrite hSafe hDoes)

theorem hostRun_preserved (run : HostRun) (hSafe : Safe start s) :
    Preserved start (fun _ _ => True) (run.program sha256) s := by
  cases run with
  | install serial => exact install_preserved hSafe
  | configure serial freshImage => exact configure_preserved hSafe

/-- Whatever runs there were and wherever they were broken off, while the clock shows no time twice:
the root password in force on the board is the image's or in an access record, and a record that was
once there is still there in some access record. -/
theorem password_recoverable {s₀ : World} {runs runs' : List HostRun} (hStart : Recoverable s₀)
    (hRuns : (hostSystem sha256 Recoverable).Run s₀ runs s)
    (hMore : (hostSystem sha256 Recoverable).Run s runs' t) (hTimes : t.times.Nodup) :
    (t.password = defaultPassword ∨ Recorded t.files t.password) ∧ Kept s.files t.files := by
  have hSteps : ∀ {start : Private} {u v : World} {runs : List HostRun}, Safe start u →
      (hostSystem sha256 Recoverable).Run u runs v → Safe start v := by
    intro start u v runs hSafe hRun
    refine hRun.preserves (I := Safe start) ?_ hSafe
    intro u run v hSafe hLeaves
    exact Leaves.keeps hLeaves (hostRun_preserved run hSafe)
  have hReached : Safe s₀.files s := hSteps (fun _ => ⟨hStart, .refl _⟩) hRuns
  have hSafe : Safe s.files t := hSteps (fun hNodup => ⟨(hReached hNodup).1, .refl _⟩) hMore
  exact ⟨(hSafe hTimes).1.force, (hSafe hTimes).2⟩

section Sample

/-- A board with a new image, and an empty private directory. -/
def freshBoard : World := ⟨fun _ => none, [], defaultPassword, none, []⟩

/-- A new password. -/
def sampleToken : Password := "Yq4-0tNf_w".toList

/-- The board has set the new password, and the host never heard of it. -/
def unheardBoard : World where
  files := Directory.put (fun _ => none) .pending (encode (accessRecord [] sampleToken))
  flash := []
  password := sampleToken
  typed := some sampleToken
  times := []

theorem freshBoard_leaves :
    (configure (fun _ => []) [] false).Leaves host hostBreaks freshBoard unheardBoard := by
  refine .after () (host_does rfl) <| .after () (host_does rfl) <| .after () (host_does rfl) ?_
  refine .after false (host_does ⟨rfl, rfl⟩) <| .after sampleToken (host_does rfl) ?_
  refine .after false (host_does ⟨rfl, rfl⟩) <| .after () (host_does rfl) ?_
  refine .after () (host_does rfl) <| .after () (host_does rfl) ?_
  refine .after () (host_does rfl) <| .after () (host_does rfl) ?_
  exact .during ⟨_, .sets _ _ rfl, .nothing _ _⟩

theorem password_recoverable_unheard :
    unheardBoard.password = defaultPassword ∨ Recorded unheardBoard.files sampleToken := by
  have hStart : Recoverable freshBoard :=
    ⟨.inl rfl, nofun, fun _ hArchive => absurd rfl hArchive⟩
  have hRun : (hostSystem (fun _ => []) Recoverable).Run freshBoard [.configure [] false]
      unheardBoard := .snoc (.nil _) freshBoard_leaves
  exact (password_recoverable hStart hRun (.nil _) .nil).1

end Sample

end Esp32Fx.Tools
