import Esp32Fx.Tools.Host

/-! One rule for each call of the host's scripts.  `I` is an invariant that the board cannot break
by itself, and `G` is what has to hold where the image is written. -/

namespace Esp32Fx.Tools

open Lib Program

variable {I : World → Prop} {G : World → Prop} {α β : Type} {Q : α → World → Prop} {s t : World}

/-- Nothing has changed but what the board does by itself. -/
structure Steady (s t : World) : Prop where
  files : t.files = s.files
  flash : t.flash = s.flash
  typed : t.typed = s.typed
  password : t.password = s.password ∨ s.typed = some t.password
  times : t.times = s.times

theorem Steady.refl (s : World) : Steady s s := ⟨rfl, rfl, rfl, .inl rfl, rfl⟩

theorem BoardActs.steady (h : BoardActs s t) : Steady s t := by
  cases h with
  | waits => exact .refl s
  | sets password hTyped => exact ⟨rfl, rfl, rfl, .inr hTyped, rfl⟩

/-- What the board does by itself keeps `I`. -/
def Stable (I : World → Prop) : Prop := ∀ s t, Steady s t → I s → I t

/-- The runs of a script keep `I`, write the image only where `G` holds, and end with `Q`. -/
abbrev Guarded (I G : World → Prop) (Q : α → World → Prop) (p : HostProgram α) (s : World) : Prop :=
  p.Keeps host hostBreaks I (fun call t => call = .writeImage → G t) Q s

theorem Steady.trans {u : World} (h : Steady s t) (h' : Steady t u) : Steady s u where
  files := h'.files.trans h.files
  flash := h'.flash.trans h.flash
  typed := h'.typed.trans h.typed
  password := by
    rcases h'.password with hSame | hTyped
    · rw [hSame]
      exact h.password
    · exact .inr (h.typed ▸ hTyped)
  times := h'.times.trans h.times

/-! ### Calls that change nothing -/

/-- The calls that change something. -/
def HostCall.changes : HostCall → Bool
  | .writeText .. | .replace .. | .unlink _ | .readFlash _ | .writeImage | .timeNs |
    .retypePassword _ | .connect | .checkNetwork => true
  | _ => false

theorem does_same {call : HostCall} {x : call.Answer} (hIdle : call.changes = false)
    (h : does s call x t) : t = s := by
  cases call <;> first | exact h | exact h.2 | cases hIdle

/-- The calls that may be half done. -/
def HostCall.torn : HostCall → Bool
  | .writeText .. | .readFlash _ | .writeImage | .connect | .checkNetwork => true
  | _ => false

theorem HostCall.torn_changes {call : HostCall} (hIdle : call.changes = false) :
    call.torn = false := by
  cases call <;> first | rfl | cases hIdle

theorem breaksOff_whole {call : HostCall} (hWhole : call.torn = false)
    (h : BreaksOff s call t) : t = s := by
  cases h with
  | nothing => rfl
  | tornNote _ files hCall hFiles => rcases hCall with rfl | rfl <;> cases hWhole
  | _ => cases hWhole

/-- A call that cannot be half done, and what comes after it. -/
theorem guarded_whole {call : HostCall} {next : call.Answer → HostProgram α} (hStable : Stable I)
    (hWhole : call.torn = false) (hI : I s)
    (hNext : ∀ x u t, Steady s u → I u → does u call x t → Guarded I G Q (next x) t) :
    Guarded I G Q (.call call next) s := by
  refine ⟨hI, ?_, ?_, ?_⟩
  · rintro rfl
    cases hWhole
  · rintro t ⟨u, hActs, hBreak⟩
    rw [breaksOff_whole hWhole hBreak]
    exact hStable s u hActs.steady hI
  · rintro x t ⟨u, hActs, hDoes⟩
    exact hNext x u t hActs.steady (hStable s u hActs.steady hI) hDoes

/-- An idle call, and what comes after its answer. -/
theorem guarded_idle {call : HostCall} {next : call.Answer → HostProgram α} (hStable : Stable I)
    (hIdle : call.changes = false) (hI : I s)
    (hNext : ∀ x t, Steady s t → does t call x t → I t → Guarded I G Q (next x) t) :
    Guarded I G Q (.call call next) s := by
  refine guarded_whole hStable (HostCall.torn_changes hIdle) hI fun x u t hSteady hI hDoes => ?_
  obtain rfl := does_same hIdle hDoes
  exact hNext x t hSteady hDoes hI

theorem guarded_raise {message : String} (hStable : Stable I) (hI : I s) :
    Guarded I G Q (raise message : HostProgram α) s :=
  guarded_idle hStable rfl hI fun x => nomatch x

theorem guarded_raiseIf {failed : Prop} [Decidable failed] {message : String}
    {k : Unit → HostProgram α} (hStable : Stable I) (hI : I s)
    (hNext : ¬failed → Guarded I G Q (k ()) s) :
    Guarded I G Q (raiseIf failed message >>= k) s := by
  unfold raiseIf
  split
  · exact guarded_idle hStable rfl hI fun x => nomatch x
  · next hPassed => exact hNext hPassed

theorem guarded_act {call : HostCall} {k : Unit → HostProgram α} (hStable : Stable I)
    (hIdle : call.changes = false) (hI : I s)
    (hNext : ∀ t, Steady s t → I t → Guarded I G Q (k ()) t) :
    Guarded I G Q (act call >>= k) s :=
  guarded_idle hStable hIdle hI fun _ t hSteady _ hI => hNext t hSteady hI

theorem guarded_flashId {k : Probe → HostProgram α} (hStable : Stable I) (hI : I s)
    (hNext : ∀ probe t, Steady s t → (probe.flash32MB → t.flash.length = boardFlashBytes) → I t →
      Guarded I G Q (k probe) t) : Guarded I G Q (flashId >>= k) s :=
  guarded_idle hStable rfl hI fun probe t hSteady hDoes hI => hNext probe t hSteady hDoes.1 hI

theorem guarded_fileExists {file : PrivateFile} {k : Bool → HostProgram α} (hStable : Stable I)
    (hI : I s)
    (hNext : ∀ t, Steady s t → I t → Guarded I G Q (k (s.files file).isSome) t) :
    Guarded I G Q (fileExists file >>= k) s := by
  refine guarded_idle hStable rfl hI fun x t hSteady hDoes hI => ?_
  obtain rfl : x = (s.files file).isSome := hSteady.files ▸ hDoes.1
  exact hNext t hSteady hI

theorem guarded_fileSize {file : PrivateFile} {k : Nat → HostProgram α} (hStable : Stable I)
    (hI : I s)
    (hNext : ∀ bytes t, s.files file = some bytes → Steady s t → I t →
      Guarded I G Q (k bytes.length) t) :
    Guarded I G Q (fileSize file >>= k) s := by
  refine guarded_idle hStable rfl hI fun x t hSteady hDoes hI => ?_
  obtain ⟨⟨bytes, hBytes, rfl⟩, -⟩ := hDoes
  exact hNext bytes t (hSteady.files ▸ hBytes) hSteady hI

theorem guarded_readBytes {file : PrivateFile} {k : List UInt8 → HostProgram α}
    (hStable : Stable I) (hI : I s)
    (hNext : ∀ bytes t, s.files file = some bytes → Steady s t → I t →
      Guarded I G Q (k bytes) t) :
    Guarded I G Q (readBytes file >>= k) s :=
  guarded_idle hStable rfl hI fun bytes t hSteady hDoes hI =>
    hNext bytes t (hSteady.files ▸ hDoes.1) hSteady hI

theorem guarded_readText {file : PrivateFile} {k : List Char → HostProgram α}
    (hStable : Stable I) (hI : I s)
    (hNext : ∀ text t, s.files file = some (encode text) → Steady s t → I t →
      Guarded I G Q (k text) t) :
    Guarded I G Q (readText file >>= k) s :=
  guarded_idle hStable rfl hI fun text t hSteady hDoes hI =>
    hNext text t (hSteady.files ▸ hDoes.1) hSteady hI

theorem guarded_envFileExists {k : Bool → HostProgram α} (hStable : Stable I) (hI : I s)
    (hNext : ∀ configured t, Steady s t → I t → Guarded I G Q (k configured) t) :
    Guarded I G Q (envFileExists >>= k) s :=
  guarded_idle hStable rfl hI fun configured t hSteady _ hI => hNext configured t hSteady hI

theorem guarded_tokenUrlsafe {k : Password → HostProgram α} (hStable : Stable I) (hI : I s)
    (hNext : ∀ password t, Steady s t → I t → Guarded I G Q (k password) t) :
    Guarded I G Q (tokenUrlsafe >>= k) s :=
  guarded_idle hStable rfl hI fun password t hSteady _ hI => hNext password t hSteady hI

theorem guarded_passwdStatus {k : Nat → HostProgram α} (hStable : Stable I) (hI : I s)
    (hNext : ∀ status t, Steady s t → I t → Guarded I G Q (k status) t) :
    Guarded I G Q (passwdStatus >>= k) s :=
  guarded_idle hStable rfl hI fun status t hSteady _ hI => hNext status t hSteady hI

/-! ### Calls that change something -/

/-- Any call: `I` for what it leaves when it is broken off, and the script after it. -/
theorem guarded_call {call : HostCall} {next : call.Answer → HostProgram α} (hStable : Stable I)
    (hI : I s) (hG : call = .writeImage → G s)
    (hBreak : ∀ u t, Steady s u → I u → BreaksOff u call t → I t)
    (hNext : ∀ x u t, Steady s u → I u → does u call x t → Guarded I G Q (next x) t) :
    Guarded I G Q (.call call next) s := by
  refine ⟨hI, hG, ?_, ?_⟩
  · rintro t ⟨u, hActs, hBreaks⟩
    exact hBreak u t hActs.steady (hStable s u hActs.steady hI) hBreaks
  · rintro x t ⟨u, hActs, hDoes⟩
    exact hNext x u t hActs.steady (hStable s u hActs.steady hI) hDoes

theorem guarded_writeText {file : PrivateFile} {text : List Char} {k : Unit → HostProgram α}
    (hStable : Stable I) (hI : I s)
    (hTorn : ∀ u torn, Steady s u → I u → I { u with files := u.files.put file torn })
    (hNext : ∀ u, Steady s u → I { u with files := u.files.put file (encode text) } →
      Guarded I G Q (k ()) { u with files := u.files.put file (encode text) }) :
    Guarded I G Q (act (.writeText file text) >>= k) s := by
  refine guarded_call hStable hI nofun ?_ ?_
  · intro u t hSteady hI hBreak
    cases hBreak with
    | nothing => exact hI
    | tornText => exact hTorn u _ hSteady hI
    | tornNote _ files hCall hFiles => rcases hCall with h | h <;> cases h
  · rintro _ u t hSteady hI rfl
    exact hNext u hSteady (hTorn u _ hSteady hI)

end Esp32Fx.Tools
