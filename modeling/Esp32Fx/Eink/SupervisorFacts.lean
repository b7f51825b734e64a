import Esp32Fx.Eink.SupervisorReads
import Esp32Fx.Lib.Holdings

/-! What the calls of the supervisor have to keep to: memory is lent only when it is clean and
touched again only when its borrower is gone, descriptors are used while they are open, and requests
are sent in the order of the protocol.  And what the guards and the descriptors do. -/

namespace Esp32Fx.Eink.Supervisor

open Lib Program

variable {build : Build} {inv : Invocation} {w s t : World}

/-! ### Proper calls -/

/-- The memory of a guard: the reservation of the build, or a mapping that the supervisor made. -/
structure Owns (build : Build) (w : World) (guard : Guard) (s : World) (r : Region) : Prop where
  place : build.placement guard = .reserved r ∨ build.placement guard = .mapped r.size
  mapped : (build.placement guard).isReserved = false →
    s.maps r.start = some r.size ∧ w.maps r.start = none

/-- Nothing uses the memory at an address, as far as the supervisor can tell: a process that was
lent it could not be waited for. -/
def Quiet (s : World) (address : Nat) : Prop :=
  ∀ pid child, s.children pid = some child → child.Borrows address → Call.wait pid ∈ s.failures

/-- Every guard of the build is held, apart from the other, clean, and its variable says where. -/
structure Published (build : Build) (w : World) (held : Guard → Option Region) (s : World) :
    Prop where
  all : ∀ guard, build.placement guard ≠ .absent → ∃ r, held guard = some r
  owns : ∀ guard r, held guard = some r → Owns build w guard s r
  told : ∀ guard r, held guard = some r → s.env guard = some (addressText r.start)
  clean : ∀ guard r, held guard = some r → ¬s.dirty r.start
  apart : ∀ r r', held .launch = some r → held .stream = some r' → r.Disjoint r'

/-- No guard is held, none of their memory is dirty, no variable tells of one, and no process
runs. -/
structure Withdrawn (build : Build) (w s : World) : Prop where
  maps : s.maps = w.maps
  clean : ∀ guard r, build.placement guard = .reserved r → ¬s.dirty r.start
  told : ∀ guard, build.placement guard ≠ .absent → s.env guard = none
  children : ∀ pid, s.children pid = none

/-- How the calls treat memory that is lent. -/
def Lends (build : Build) (w : World) : Call → World → Prop
  | .wipe r, s => (∃ guard, Owns build w guard s r) ∧ Quiet s r.start
  | .unmap r, s => s.maps r.start = some r.size ∧ w.maps r.start = none ∧ Quiet s r.start ∧
    (s.dirty r.start → s.Lent r.start)
  | .readMarker _, s | .spawn ⟨_, some _⟩, s => ∃ held, Published build w held s
  | .spawn ⟨_, none⟩, s => Withdrawn build w s
  | _, _ => True

/-- A descriptor that the supervisor has opened. -/
def Opened (w s : World) (fd : Nat) (handle : Handle) : Prop :=
  s.handles fd = some handle ∧ w.handles fd = none

/-- What the calls are made on is there, and the supervisor's own. -/
def Handles (w : World) : Call → World → Prop
  | .close fd, s | .fdopen fd, s => Opened w s fd .descriptor
  | .fclose fd, s | .send fd _, s | .receive fd, s => Opened w s fd .stream
  | .kill pid, s | .wait pid, s => s.children pid ≠ none
  | .spawn ⟨_, some (input, output)⟩, s =>
    Opened w s input .descriptor ∧ Opened w s output .descriptor
  | .writeFile path _, s => s.files path = some [] ∧ w.files path = none
  | .unlink path, s => s.files path ≠ none ∧ w.files path = none
  | _, _ => True

/-- A request and the lines up to its response. -/
def turn (request : List UInt8) (lines : List (List UInt8)) : List Event :=
  .sent request :: lines.map .received

/-- What is sent with an id, what has passed before, and the last line of that. -/
inductive Says (bits : Nat) (env : Env) (prompt : List UInt8) :
    Int → List Event → List UInt8 → List UInt8 → Prop
  | first : Says bits env prompt 1 [] [] (sendInitialize env)
  | second {lines : List (List UInt8)} {line : List UInt8}
    (hFirst : Reads bits lines 1 [] none line none) :
    Says bits env prompt 2 (turn (sendInitialize env) lines) line sendNewSession
  | third {lines lines' : List (List UInt8)} {line line' : List UInt8} {sessionId : TextBuffer}
    (hFirst : Reads bits lines 1 [] none line none)
    (hSecond : Reads bits lines' 2 line none line' none)
    (hId : jsonStringValue line' (ascii "sessionId") = .found sessionId)
    (hAllocated : sessionId.allocated = true) :
    Says bits env prompt 3 (turn (sendInitialize env) lines ++ turn sendNewSession lines') line'
      (sendPrompt sessionId.data prompt)

/-- All that passes, up to the response to the prompt. -/
structure Conversation (bits : Nat) (env : Env) (prompt : List UInt8) (exchanged : List Event)
    (lines : List (List UInt8)) (last : List UInt8) (response : TextBuffer) : Prop where
  passed : ∃ before request, Says bits env prompt 3 before last request ∧
    exchanged = before ++ turn request lines
  answered : ∃ line, Reads bits lines 3 last (some .empty) line (some response)

/-- The runtime may be started, as the arguments ask for it. -/
def Settings.Ready (settings : Settings) (s : World) : Prop :=
  ∀ path, settings.readyPath = some path →
    ascii "/tmp/" <+: path ∧ path.length ≤ 255 ∧ s.marker = some (.contents (ascii "ready\n"))

/-- The runtime has ended well. -/
def Settings.Finished (settings : Settings) (s : World) : Prop :=
  ∃ child, s.reaped = [(child, .exited 0)] ∧ child.argv = [settings.runner, settings.module]

/-- The renderer is started on the answer. -/
structure Renders (build : Build) (inv : Invocation) (settings : Settings) (prompt : List UInt8)
    (argv : List (List UInt8)) (s : World) : Prop where
  finished : settings.Finished s
  answer : ∃ transcript lines last response,
    argv = rendererArgv settings transcript ∧
    Conversation build.bits inv.env prompt s.exchanged lines last response ∧
    s.files transcript = some (writeTranscript prompt response)

/-- What the arguments ask for. -/
structure Asked (build : Build) (inv : Invocation) (settings : Settings) (prompt : List UInt8) :
    Prop where
  settings : readOptions (.initial build inv.env) inv.options = .inl settings
  prompt : joinPrompt inv.words = some prompt

/-- No process has been started before. -/
def NothingStarted (s : World) : Prop := (∀ pid, s.children pid = none) ∧ s.reaped = []

/-- How the calls follow the protocol. -/
def Speaks (build : Build) (inv : Invocation) : Call → World → Prop
  | .send _ request, s => ∃ settings prompt, Asked build inv settings prompt ∧ ∃ id last,
    Says build.bits inv.env prompt id s.exchanged last request
  | .spawn ⟨argv, some _⟩, s => ∃ settings prompt, Asked build inv settings prompt ∧
    argv = [settings.runner, settings.module] ∧ settings.Ready s ∧ s.exchanged = [] ∧
    NothingStarted s
  | .spawn ⟨argv, none⟩, s => ∃ settings prompt, Asked build inv settings prompt ∧
    Renders build inv settings prompt argv s
  | .sleep, s => s.sleeps < 180 ∧ s.marker = some .missing
  | _, _ => True

structure Proper (build : Build) (inv : Invocation) (w : World) (call : Call) (s : World) :
    Prop where
  lends : Lends build w call s
  handles : Handles w call s
  speaks : Speaks build inv call s

/-- What every run of a part of the supervisor ends with; its calls are proper. -/
abbrev SystemKeeps {α : Type} (build : Build) (inv : Invocation) (w : World)
    (Q : α → World → Prop) (p : System α) (s : World) : Prop :=
  p.Keeps host (wholeCalls host) (fun _ => True) (Proper build inv w) Q s

/-! ### The guards -/

/-- Where the mappings of the guards start. -/
def starts (build : Build) (held : Guard → Option Region) : List Nat :=
  part .stream ++ part .launch
where
  part (guard : Guard) : List Nat :=
    if (build.placement guard).isReserved then [] else (held guard).toList.map Region.start

/-- The guards that are held, beside the mappings of `leaked` that could not be given back.  Dirty
memory of the build is held, or it is `stale`. -/
structure Guarded (build : Build) (w : World) (leaked : List Nat) (stale : Guard → Nat → Prop)
    (held : Guard → Option Region) (s : World) : Prop where
  maps : Holds (leaked ++ starts build held) w.maps s.maps
  lost : ∀ a ∈ leaked, ∃ r : Region, r.start = a ∧ Call.unmap r ∈ s.failures
  place : ∀ guard r, held guard = some r →
    build.placement guard = .reserved r ∨ build.placement guard = .mapped r.size
  size : ∀ guard r, held guard = some r → (build.placement guard).isReserved = false →
    s.maps r.start = some r.size
  apart : ∀ guard guard' r r', guard ≠ guard' → held guard = some r → held guard' = some r' →
    r.Disjoint r'
  dirty : ∀ guard r, build.placement guard = .reserved r → s.dirty r.start →
    held guard = some r ∨ stale guard r.start

/-- The guards that are held have been told of, and are clean. -/
structure Lending (held : Guard → Option Region) (s : World) : Prop where
  told : ∀ guard r, held guard = some r → s.env guard = some (addressText r.start)
  clean : ∀ guard r, held guard = some r → ¬s.dirty r.start

variable {leaked : List Nat} {stale : Guard → Nat → Prop} {held : Guard → Option Region}
  {guard : Guard} {r : Region}

theorem starts_reserved (hReserved : (build.placement guard).isReserved = true)
    (x : Option Region) : starts build (Function.update held guard x) = starts build held := by
  cases guard with
  | launch => simp [starts, starts.part, hReserved, Function.update_of_ne]
  | stream => simp [starts, starts.part, hReserved, Function.update_of_ne]

/-- A mapping that is not held yet comes to those that are. -/
theorem starts_mapped (hMapped : (build.placement guard).isReserved = false)
    (hFree : held guard = none) (r : Region) :
    (r.start :: starts build held).Perm (starts build (Function.update held guard (some r))) := by
  cases guard with
  | launch =>
    simp only [starts, starts.part, hMapped, hFree, Function.update_self,
      Function.update_of_ne (show Guard.stream ≠ .launch by decide)]
    simpa using (List.perm_append_singleton r.start _).symm
  | stream =>
    simp only [starts, starts.part, hMapped, hFree, Function.update_self,
      Function.update_of_ne (show Guard.launch ≠ .stream by decide)]
    simp

theorem Build.same (build : Build) (guard guard' : Guard) :
    (build.placement guard).isReserved = (build.placement guard').isReserved := by
  have h := build.together
  cases guard <;> cases guard' <;> simp [h]

theorem Guarded.owns (h : Guarded build w leaked stale held s) (hHeld : held guard = some r) :
    Owns build w guard s r := by
  refine ⟨h.place guard r hHeld, fun hMapped => ⟨h.size guard r hHeld hMapped, ?_⟩⟩
  refine h.maps.fresh r.start (List.mem_append_right _ ?_)
  cases guard with
  | launch => simp [starts, starts.part, hMapped, hHeld]
  | stream => simp [starts, starts.part, hMapped, hHeld]

theorem Guarded.published (h : Guarded build w leaked stale held s) (hLending : Lending held s)
    (hAll : ∀ guard, build.placement guard ≠ .absent → ∃ r, held guard = some r) :
    Published build w held s :=
  ⟨hAll, fun _ _ hHeld => h.owns hHeld, hLending.told, hLending.clean,
    fun _ _ hLaunch hStream => h.apart _ _ _ _ (by decide) hLaunch hStream⟩

/-- The memory and the failures of `t` are as they were in `s`. -/
theorem Guarded.congr (h : Guarded build w leaked stale held s) (hMaps : t.maps = s.maps)
    (hDirty : ∀ a, t.dirty a → s.dirty a) (hFailures : s.failures ⊆ t.failures) :
    Guarded build w leaked stale held t where
  maps := hMaps ▸ h.maps
  lost a ha := by
    obtain ⟨r, hStart, hFailed⟩ := h.lost a ha
    exact ⟨r, hStart, hFailures hFailed⟩
  place := h.place
  size guard r hHeld hMapped := by rw [hMaps, h.size guard r hHeld hMapped]
  apart := h.apart
  dirty guard r hPlace hHere := h.dirty guard r hPlace (hDirty _ hHere)

/-- With all the guards held, their memory may get dirty. -/
theorem Guarded.used (h : Guarded build w leaked stale held s) (hMaps : t.maps = s.maps)
    (hFailures : s.failures ⊆ t.failures)
    (hAll : ∀ guard, build.placement guard ≠ .absent → ∃ r, held guard = some r) :
    Guarded build w leaked stale held t where
  maps := hMaps ▸ h.maps
  lost a ha := by
    obtain ⟨r, hStart, hFailed⟩ := h.lost a ha
    exact ⟨r, hStart, hFailures hFailed⟩
  place := h.place
  size guard r hHeld hMapped := by rw [hMaps, h.size guard r hHeld hMapped]
  apart := h.apart
  dirty guard r hPlace _ := by
    obtain ⟨r', hHeld⟩ := hAll guard (by rw [hPlace]; nofun)
    rcases h.place guard r' hHeld with hSame | hMapped
    · rw [hSame] at hPlace
      cases hPlace
      exact .inl hHeld
    · rw [hMapped] at hPlace
      cases hPlace

/-- A free guard is taken: a mapping, or the reservation once it is wiped. -/
theorem Guarded.take (h : Guarded build w [] stale held s) (hFree : held guard = none)
    (hPlace : build.placement guard = .reserved r ∨ build.placement guard = .mapped r.size)
    (hMaps : t.maps = if (build.placement guard).isReserved then s.maps
      else Function.update s.maps r.start (some r.size))
    (hNew : (build.placement guard).isReserved = false → s.maps r.start = none ∧
      ∀ start size, s.maps start = some size → Region.Disjoint ⟨start, size⟩ r)
    (hDirty : t.dirty = Function.update s.dirty r.start False) :
    Guarded build w [] (fun guard' a => guard' ≠ guard ∧ stale guard' a)
      (Function.update held guard (some r)) t := by
  have hClean : ∀ a, t.dirty a → s.dirty a ∧ a ≠ r.start := by
    intro a ha
    rw [hDirty] at ha
    by_cases hHere : a = r.start
    · subst hHere
      rw [Function.update_self] at ha
      exact ha.elim
    · rw [Function.update_of_ne hHere] at ha
      exact ⟨ha, hHere⟩
  have hOther : ∀ guard' r', guard' ≠ guard → held guard' = some r' → r.Disjoint r' := by
    intro guard' r' hNe hHeld
    have hSame := build.same guard guard'
    rcases hPlace with hReserved | hMapped
    · rcases h.place guard' r' hHeld with hReserved' | hMapped'
      · cases guard with
        | launch =>
          cases guard' with
          | launch => exact absurd rfl hNe
          | stream => exact build.apart r r' hReserved hReserved'
        | stream =>
          cases guard' with
          | launch => exact (build.apart r' r hReserved' hReserved).symm
          | stream => exact absurd rfl hNe
      · rw [hReserved, hMapped'] at hSame
        cases hSame
    · have hAlso : (build.placement guard).isReserved = false := by rw [hMapped]; rfl
      have hSize := h.size guard' r' hHeld (hSame ▸ hAlso)
      exact ((hNew hAlso).2 _ _ hSize).symm
  refine ⟨?_, nofun, ?_, ?_, ?_, ?_⟩
  · cases hReserved : (build.placement guard).isReserved with
    | true =>
      rw [starts_reserved hReserved, hMaps, hReserved]
      exact h.maps
    | false =>
      rw [hMaps, hReserved]
      have hTaken := h.maps.take (hNew hReserved).1 r.size
      exact hTaken.perm (starts_mapped hReserved hFree r)
  · intro guard' r' hHeld
    by_cases hGuard : guard' = guard
    · subst hGuard
      rw [Function.update_self] at hHeld
      cases hHeld
      exact hPlace
    · rw [Function.update_of_ne hGuard] at hHeld
      exact h.place guard' r' hHeld
  · intro guard' r' hHeld hMapped
    by_cases hGuard : guard' = guard
    · subst hGuard
      rw [Function.update_self] at hHeld
      cases hHeld
      rw [hMaps, hMapped, if_neg (by simp), Function.update_self]
    · rw [Function.update_of_ne hGuard] at hHeld
      have hSize := h.size guard' r' hHeld hMapped
      rw [hMaps, build.same guard guard', hMapped, if_neg (by simp)]
      exact Holds.update_kept (hNew (build.same guard guard' ▸ hMapped)).1 hSize _
  · intro guard₁ guard₂ r₁ r₂ hNe h₁ h₂
    by_cases hFirst : guard₁ = guard
    · subst hFirst
      rw [Function.update_self] at h₁
      rw [Function.update_of_ne hNe.symm] at h₂
      cases h₁
      exact hOther guard₂ r₂ hNe.symm h₂
    · rw [Function.update_of_ne hFirst] at h₁
      by_cases hSecond : guard₂ = guard
      · subst hSecond
        rw [Function.update_self] at h₂
        cases h₂
        exact (hOther guard₁ r₁ hFirst h₁).symm
      · rw [Function.update_of_ne hSecond] at h₂
        exact h.apart guard₁ guard₂ r₁ r₂ hNe h₁ h₂
  · intro guard' r' hReserved hHere
    obtain ⟨hBefore, hElsewhere⟩ := hClean _ hHere
    by_cases hGuard : guard' = guard
    · subst hGuard
      rcases hPlace with hPlace | hPlace
      · rw [hPlace] at hReserved
        cases hReserved
        exact absurd rfl hElsewhere
      · rw [hPlace] at hReserved
        cases hReserved
    · rw [Function.update_of_ne hGuard]
      exact (h.dirty guard' r' hReserved hBefore).imp id fun hStale => ⟨hGuard, hStale⟩

/-- The stale memory of the other guard. -/
def without (guard : Guard) (stale : Guard → Nat → Prop) : Guard → Nat → Prop :=
  fun guard' a => guard' ≠ guard ∧ stale guard' a

/-- Only a reservation can be stale. -/
theorem Guarded.skip (h : Guarded build w leaked stale held s)
    (hMapped : (build.placement guard).isReserved = false) :
    Guarded build w leaked (without guard stale) held s where
  maps := h.maps
  lost := h.lost
  place := h.place
  size := h.size
  apart := h.apart
  dirty guard' r hPlace hHere := by
    refine (h.dirty guard' r hPlace hHere).imp id fun hStale => ⟨?_, hStale⟩
    rintro rfl
    rw [hPlace] at hMapped
    cases hMapped

/-- What taking a guard comes to. -/
structure Took (build : Build) (w : World) (guard : Guard) (stale : Guard → Nat → Prop)
    (held : Guard → Option Region) (s : World) (x : Option Region × Bool) (t : World) : Prop where
  frame : t = { s with env := t.env, maps := t.maps, dirty := t.dirty }
  guarded : Guarded build w [] (without guard stale) (Function.update held guard x.1) t
  lending : x.2 = true → Lending (Function.update held guard x.1) t
  all : x.2 = true → build.placement guard ≠ .absent → ∃ r, x.1 = some r

theorem update_none (hFree : held guard = none) : Function.update held guard none = held := by
  rw [← hFree, Function.update_eq_self]

/-- The variable of a guard whose memory has been taken. -/
theorem publish_keeps (hGuarded : Guarded build w [] (without guard stale)
      (Function.update held guard (some r)) t)
    (hFrame : t = { s with maps := t.maps, dirty := t.dirty }) (hLending : Lending held s)
    (hClean : ∀ a, t.dirty a → s.dirty a ∧ a ≠ r.start) :
    SystemKeeps build inv w (Took build w guard stale held s)
      (do return (some r, ← setenv guard (addressText r.start))) t := by
  refine keeps_perform_bind trivial ⟨trivial, trivial, trivial⟩ ?_
  rintro (_ | _) u hCall
  · obtain rfl : u = t := hCall
    refine ⟨trivial, ?_, hGuarded, nofun, nofun⟩
    rw [hFrame]
  · obtain rfl : u = { t with env := Function.update t.env guard (some (addressText r.start)) } :=
      hCall
    refine ⟨trivial, ?_, hGuarded.congr rfl (fun _ => id) (fun _ => id), fun _ => ?_,
      fun _ _ => ⟨r, rfl⟩⟩
    · rw [hFrame]
    constructor
    · intro guard' r' hHeld
      by_cases hGuard : guard' = guard
      · subst hGuard
        rw [Function.update_self] at hHeld
        cases hHeld
        exact Function.update_self ..
      · rw [Function.update_of_ne hGuard] at hHeld
        dsimp only
        rw [Function.update_of_ne hGuard, hFrame]
        exact hLending.told guard' r' hHeld
    · intro guard' r' hHeld hHere
      obtain ⟨hBefore, hElsewhere⟩ := hClean _ hHere
      by_cases hGuard : guard' = guard
      · subst hGuard
        rw [Function.update_self] at hHeld
        cases hHeld
        exact hElsewhere rfl
      · rw [Function.update_of_ne hGuard] at hHeld
        exact hLending.clean guard' r' hHeld hBefore

theorem update_false {dirty : Nat → Prop} {a b : Nat}
    (h : Function.update dirty a False b) : dirty b ∧ b ≠ a := by
  by_cases hSame : b = a
  · subst hSame
    rw [Function.update_self] at h
    exact h.elim
  · rw [Function.update_of_ne hSame] at h
    exact ⟨h, hSame⟩

theorem lent_idle (hIdle : ∀ pid, s.children pid = none) (a : Nat) : s.Lent a = False := by
  refine eq_false ?_
  rintro ⟨pid, child, hChild, _⟩
  rw [hIdle pid] at hChild
  cases hChild

theorem quiet_idle (hIdle : ∀ pid, s.children pid = none) (a : Nat) : Quiet s a := by
  intro pid child hChild _
  rw [hIdle pid] at hChild
  cases hChild

theorem holdGuard_keeps (h : Guarded build w [] stale held s) (hFree : held guard = none)
    (hLending : Lending held s) (hIdle : ∀ pid, s.children pid = none) :
    SystemKeeps build inv w (Took build w guard stale held s)
      (holdGuard guard (build.placement guard)) s := by
  cases hPlace : build.placement guard with
  | absent =>
    refine ⟨trivial, rfl, ?_, fun _ => ?_, fun _ hPresent => absurd hPlace hPresent⟩
    · rw [update_none hFree]
      exact h.skip (by rw [hPlace]; rfl)
    · rw [update_none hFree]
      exact hLending
  | mapped bytes =>
    refine keeps_perform_bind trivial ⟨trivial, trivial, trivial⟩ ?_
    rintro (_ | address) t hCall
    · obtain rfl : t = s := hCall
      refine ⟨trivial, rfl, ?_, nofun, nofun⟩
      rw [update_none hFree]
      exact h.skip (by rw [hPlace]; rfl)
    · obtain ⟨hNew, hApart, rfl⟩ := hCall
      have hReserved : (build.placement guard).isReserved = false := by rw [hPlace]; rfl
      refine publish_keeps (r := ⟨address, bytes⟩) ?_ rfl hLending fun _ => update_false
      refine h.take hFree (.inr hPlace) ?_ (fun _ => ⟨hNew, hApart⟩) rfl
      rw [hReserved]
      rfl
  | reserved region =>
    have hReserved : (build.placement guard).isReserved = true := by rw [hPlace]; rfl
    refine keeps_perform_bind trivial ⟨⟨⟨guard, .inl hPlace, ?_⟩, quiet_idle hIdle _⟩, trivial,
      trivial⟩ ?_
    · rw [hReserved]
      nofun
    · rintro _ t hCall
      have hWiped : t = { s with dirty := Function.update s.dirty region.start False } := by
        rw [← lent_idle hIdle region.start]
        exact hCall
      subst hWiped
      refine publish_keeps (r := region) ?_ rfl hLending fun _ => update_false
      refine h.take hFree (.inl hPlace) ?_ ?_ rfl
      · rw [hReserved]
        rfl
      · rw [hReserved]
        nofun

/-- The launch guard: it may be left as it is. -/
theorem holdLaunch_keeps (h : Guarded build w [] stale held s) (hFree : held .launch = none)
    (hLending : Lending held s) (hIdle : ∀ pid, s.children pid = none) :
    SystemKeeps build inv w (fun x t => Took build w .launch stale held s x t ∨
        x = (none, false) ∧ t = s)
      (holdLaunch (build.placement .launch)) s := by
  have hHold : SystemKeeps build inv w (fun x t => Took build w .launch stale held s x t ∨
      x = (none, false) ∧ t = s) (holdGuard .launch (build.placement .launch)) s :=
    keeps_mono (holdGuard_keeps h hFree hLending hIdle) fun _ _ _ hTook => .inl hTook
  unfold holdLaunch
  cases (build.placement .launch).isReserved with
  | false => exact hHold
  | true =>
    refine keeps_perform_bind trivial ⟨trivial, trivial, trivial⟩ ?_
    rintro (_ | _) t hCall
    · obtain rfl : t = s := hCall
      exact ⟨trivial, .inr ⟨rfl, rfl⟩⟩
    · obtain rfl : t = s := hCall
      exact hHold

theorem update_held (hHeld : held guard = some r) :
    Function.update (Function.update held guard none) guard (some r) = held := by
  rw [Function.update_idem, ← hHeld, Function.update_eq_self]

theorem starts_release (hMapped : (build.placement guard).isReserved = false)
    (hHeld : held guard = some r) :
    (starts build held).Perm (r.start :: starts build (Function.update held guard none)) := by
  have hFree : Function.update held guard none guard = none := Function.update_self ..
  have hPerm := starts_mapped hMapped hFree r
  rw [update_held hHeld] at hPerm
  exact hPerm.symm

theorem held_fewer {guard' : Guard} {r' : Region}
    (hHeld : Function.update held guard none guard' = some r') :
    guard' ≠ guard ∧ held guard' = some r' := by
  by_cases hGuard : guard' = guard
  · subst hGuard
    rw [Function.update_self] at hHeld
    cases hHeld
  · rw [Function.update_of_ne hGuard] at hHeld
    exact ⟨hGuard, hHeld⟩

/-- A guard whose memory has been wiped, and has been given back or could not be, is no longer
held. -/
theorem Guarded.give (h : Guarded build w leaked stale held s) (hHeld : held guard = some r)
    {leaked' : List Nat} {busy : Prop}
    (hMaps : Holds (leaked' ++ starts build (Function.update held guard none)) w.maps t.maps)
    (hKept : ∀ a, a ≠ r.start ∨ (build.placement guard).isReserved = true →
      t.maps a = s.maps a)
    (hLost : ∀ a ∈ leaked', ∃ r : Region, r.start = a ∧ Call.unmap r ∈ t.failures)
    (hDirty : t.dirty = Function.update s.dirty r.start busy)
    (hBusy : busy → ∀ guard', stale guard' r.start) :
    Guarded build w leaked' stale (Function.update held guard none) t where
  maps := hMaps
  lost := hLost
  place guard' r' hHeld' := h.place guard' r' (held_fewer hHeld').2
  size guard' r' hHeld' hMapped := by
    obtain ⟨hOther, hBefore⟩ := held_fewer hHeld'
    have hSize := h.size guard' r' hBefore hMapped
    rw [hKept r'.start, hSize]
    refine .inl fun hSame => ?_
    have hNodup := h.maps.nodup
    have hBoth : (starts build held).Nodup := (List.nodup_append.mp hNodup).2.1
    rw [(starts_release (build.same guard guard' ▸ hMapped) hHeld).nodup_iff] at hBoth
    refine (List.nodup_cons.mp hBoth).1 ?_
    rw [← hSame]
    cases guard' with
    | launch => simp [starts, starts.part, hMapped, hHeld']
    | stream => simp [starts, starts.part, hMapped, hHeld']
  apart guard₁ guard₂ r₁ r₂ hNe h₁ h₂ :=
    h.apart guard₁ guard₂ r₁ r₂ hNe (held_fewer h₁).2 (held_fewer h₂).2
  dirty guard' r' hPlace hHere := by
    rw [hDirty] at hHere
    by_cases hSame : r'.start = r.start
    · rw [hSame, Function.update_self] at hHere
      rw [hSame]
      exact .inr (hBusy hHere guard')
    · rw [Function.update_of_ne hSame] at hHere
      rcases h.dirty guard' r' hPlace hHere with hBefore | hStale
      · refine .inl ?_
        have hOther : guard' ≠ guard := by
          rintro rfl
          rw [hHeld] at hBefore
          cases hBefore
          exact hSame rfl
        rw [Function.update_of_ne hOther, hBefore]
      · exact .inr hStale

/-- A mapping that is given back is no longer in the way. -/
theorem Guarded.unmapped (h : Guarded build w leaked stale held s) (hHeld : held guard = some r)
    (hMapped : (build.placement guard).isReserved = false) :
    Holds (leaked ++ starts build (Function.update held guard none)) w.maps
      (Function.update s.maps r.start none) := by
  refine Holds.give (h.maps.perm ?_)
  exact (List.Perm.append_left leaked (starts_release hMapped hHeld)).trans List.perm_middle

theorem Guarded.reserved (h : Guarded build w leaked stale held s)
    (hReserved : (build.placement guard).isReserved = true) :
    Holds (leaked ++ starts build (Function.update held guard none)) w.maps s.maps := by
  rw [starts_reserved hReserved]
  exact h.maps

/-- What giving a guard back comes to. -/
structure Gave (build : Build) (w : World) (guard : Guard) (stale : Guard → Nat → Prop)
    (held : Guard → Option Region) (s : World) (x : Option Region × Bool) (t : World) : Prop where
  frame : t = { s with env := t.env, maps := t.maps, dirty := t.dirty, failures := t.failures }
  guarded : Guarded build w [] stale (Function.update held guard x.1) t
  failures : s.failures ⊆ t.failures
  released : x.2 = true → x.1 = none ∧ (held guard ≠ none → t.env guard = none) ∧
    ∀ guard', guard' ≠ guard → t.env guard' = s.env guard'

theorem releaseGuard_keeps (h : Guarded build w [] stale held s)
    (hIdle : ∀ pid, s.children pid = none) :
    SystemKeeps build inv w (Gave build w guard stale held s)
      (releaseGuard guard (build.placement guard) (held guard)) s := by
  cases hHeld : held guard with
  | none =>
    refine ⟨trivial, rfl, ?_, fun _ => id, fun _ => ⟨rfl, fun hNe => absurd hHeld hNe,
      fun _ _ => rfl⟩⟩
    rw [update_none hHeld]
    exact h
  | some r =>
    refine keeps_perform_bind trivial ⟨⟨⟨guard, h.owns hHeld⟩, quiet_idle hIdle _⟩, trivial,
      trivial⟩ ?_
    rintro _ t hCall
    have hWiped : t = { s with dirty := Function.update s.dirty r.start False } := by
      rw [← lent_idle hIdle r.start]
      exact hCall
    have hOwns := (h.owns hHeld).mapped
    cases hReserved : (build.placement guard).isReserved with
    | true =>
      refine keeps_perform_bind trivial ⟨trivial, trivial, trivial⟩ ?_
      rintro _ u hUnset
      obtain rfl : u = { t with env := Function.update t.env guard none } := hUnset
      subst hWiped
      refine ⟨trivial, rfl, ?_, fun _ => id, fun _ => ⟨rfl, fun _ => Function.update_self ..,
        fun guard' hNe => Function.update_of_ne hNe ..⟩⟩
      exact h.give hHeld (h.reserved hReserved) (fun _ _ => rfl) nofun rfl False.elim
    | false =>
      obtain ⟨hSize, hNew⟩ := hOwns hReserved
      refine keeps_perform_bind trivial ⟨⟨?_, hNew, ?_, ?_⟩, trivial, trivial⟩ ?_
      · rw [hWiped]
        exact hSize
      · rw [hWiped]
        exact quiet_idle hIdle _
      · rw [hWiped]
        intro hDirty
        exact (update_false hDirty).2 rfl |>.elim
      rintro (_ | _) u hUnmap
      · obtain rfl : u = { t with failures := t.failures ++ [.unmap r] } := hUnmap
        subst hWiped
        refine ⟨trivial, rfl, ?_, List.subset_append_left .., nofun⟩
        have hSame : Function.update held guard (some r) = held := by
          rw [← hHeld, Function.update_eq_self]
        rw [hSame]
        exact h.congr rfl (fun a ha => (update_false ha).1) (List.subset_append_left ..)
      · obtain rfl : u = { t with maps := Function.update t.maps r.start none } := hUnmap
        refine keeps_perform_bind trivial ⟨trivial, trivial, trivial⟩ ?_
        rintro _ v hUnset
        obtain rfl : v = { t with
            maps := Function.update t.maps r.start none
            env := Function.update t.env guard none } := hUnset
        subst hWiped
        refine ⟨trivial, rfl, ?_, fun _ => id, fun _ => ⟨rfl, fun _ => Function.update_self ..,
          fun guard' hNe => Function.update_of_ne hNe ..⟩⟩
        refine h.give hHeld (h.unmapped hHeld hReserved) ?_ nofun rfl False.elim
        rintro a (hOther | hTrue)
        · exact Function.update_of_ne hOther ..
        · rw [hReserved] at hTrue
          cases hTrue

/-- The cleanup of a guard: it is given back, or the mapping stays. -/
theorem dropGuard_keeps (h : Guarded build w leaked stale held s) (hQuiet : ∀ a, Quiet s a)
    (hStale : ∀ a, s.Lent a → ∀ guard', stale guard' a) :
    SystemKeeps build inv w (fun _ t =>
        t = { s with maps := t.maps, dirty := t.dirty, failures := t.failures } ∧
        s.failures ⊆ t.failures ∧
        ∃ leaked', Guarded build w leaked' stale (Function.update held guard none) t)
      (dropGuard (build.placement guard) (held guard)) s := by
  cases hHeld : held guard with
  | none =>
    refine ⟨trivial, rfl, fun _ => id, leaked, ?_⟩
    rw [update_none hHeld]
    exact h
  | some r =>
    refine keeps_perform_bind trivial ⟨⟨⟨guard, h.owns hHeld⟩, hQuiet _⟩, trivial, trivial⟩ ?_
    rintro _ t hCall
    obtain rfl : t = { s with dirty := Function.update s.dirty r.start (s.Lent r.start) } := hCall
    have hOwns := (h.owns hHeld).mapped
    cases hReserved : (build.placement guard).isReserved with
    | true =>
      refine ⟨trivial, rfl, fun _ => id, leaked, ?_⟩
      exact h.give hHeld (h.reserved hReserved) (fun _ _ => rfl) h.lost rfl (hStale _)
    | false =>
      obtain ⟨hSize, hNew⟩ := hOwns hReserved
      refine keeps_perform_bind trivial ⟨⟨hSize, hNew, hQuiet _, ?_⟩, trivial, trivial⟩ ?_
      · intro hDirty
        dsimp only at hDirty
        rwa [Function.update_self] at hDirty
      rintro (_ | _) u hUnmap
      · obtain rfl := hUnmap
        refine ⟨trivial, rfl, List.subset_append_left .., r.start :: leaked, ?_⟩
        refine h.give hHeld ?_ (fun _ _ => rfl) ?_ rfl (hStale _)
        · refine h.maps.perm ?_
          exact (List.Perm.append_left leaked (starts_release hReserved hHeld)).trans
            List.perm_middle
        · intro a ha
          rcases List.mem_cons.mp ha with rfl | hBefore
          · exact ⟨r, rfl, by simp⟩
          · obtain ⟨r', hStart, hFailed⟩ := h.lost a hBefore
            exact ⟨r', hStart, List.mem_append_left _ hFailed⟩
      · obtain rfl := hUnmap
        refine ⟨trivial, rfl, fun _ => id, leaked, ?_⟩
        refine h.give hHeld (h.unmapped hHeld hReserved) ?_ h.lost rfl (hStale _)
        rintro a (hOther | hTrue)
        · exact Function.update_of_ne hOther ..
        · rw [hReserved] at hTrue
          cases hTrue

/-! ### Descriptors -/

/-- From `w` on, the descriptors of `fds` have been opened. -/
structure Has (w : World) (fds : List (Nat × Handle)) (s : World) : Prop where
  holds : Holds (fds.map Prod.fst) w.handles s.handles
  kinds : ∀ x ∈ fds, s.handles x.1 = some x.2

namespace Has

variable {fds l m : List (Nat × Handle)} {fd read write : Nat} {handle : Handle}

theorem nil (h : s.handles = w.handles) : Has w [] s := ⟨h ▸ .nil _, nofun⟩

/-- What holds nothing has closed everything. -/
theorem eq (h : Has w [] s) : s.handles = w.handles := h.holds.eq

theorem congr (h : Has w fds s) (hHandles : t.handles = s.handles) : Has w fds t :=
  ⟨hHandles ▸ h.holds, fun x hx => hHandles ▸ h.kinds x hx⟩

theorem opened (h : Has w fds s) (hMem : (fd, handle) ∈ fds) : Opened w s fd handle :=
  ⟨h.kinds _ hMem, h.holds.fresh fd (List.mem_map_of_mem hMem)⟩

/-- A descriptor more. -/
theorem take (h : Has w fds s) (hFree : s.handles fd = none)
    (hHandles : t.handles = Function.update s.handles fd (some handle)) :
    Has w ((fd, handle) :: fds) t where
  holds := by
    rw [hHandles]
    exact h.holds.take hFree handle
  kinds x hx := by
    rw [hHandles]
    rcases List.mem_cons.mp hx with rfl | hOld
    · exact Function.update_self ..
    · exact Holds.update_kept hFree (h.kinds x hOld) handle

theorem pipe (h : Has w fds s) (hRead : s.handles read = none) (hWrite : s.handles write = none)
    (hNe : read ≠ write) (hHandles : t.handles = Function.update
      (Function.update s.handles read (some .descriptor)) write (some .descriptor)) :
    Has w ((write, .descriptor) :: (read, .descriptor) :: fds) t := by
  have hFirst : Has w ((read, .descriptor) :: fds)
      { s with handles := Function.update s.handles read (some .descriptor) } := h.take hRead rfl
  refine hFirst.take ?_ hHandles
  dsimp only
  rw [Function.update_of_ne hNe.symm, hWrite]

/-- The other descriptors. -/
theorem ne (h : Has w (l ++ (fd, handle) :: m) s) {x : Nat × Handle} (hx : x ∈ l ++ m) :
    x.1 ≠ fd := by
  have hPerm : ((l ++ (fd, handle) :: m).map Prod.fst).Perm (fd :: (l ++ m).map Prod.fst) :=
    List.perm_middle.map Prod.fst
  have hNodup := hPerm.nodup_iff.mp h.holds.nodup
  rintro rfl
  exact (List.nodup_cons.mp hNodup).1 (List.mem_map_of_mem hx)

theorem close (h : Has w (l ++ (fd, handle) :: m) s)
    (hHandles : t.handles = Function.update s.handles fd none) : Has w (l ++ m) t where
  holds := by
    rw [hHandles]
    refine Holds.give (h.holds.perm ?_)
    exact List.perm_middle.map Prod.fst
  kinds x hx := by
    rw [hHandles, Function.update_of_ne (h.ne hx)]
    refine h.kinds x ?_
    rcases List.mem_append.mp hx with hLeft | hRight
    · exact List.mem_append_left _ hLeft
    · exact List.mem_append_right _ (List.mem_cons_of_mem _ hRight)

/-- A stream is put on a descriptor. -/
theorem stream (h : Has w (l ++ (fd, handle) :: m) s)
    (hHandles : t.handles = Function.update s.handles fd (some .stream)) :
    Has w (l ++ (fd, .stream) :: m) t := by
  have hClosed : Has w (l ++ m) { s with handles := Function.update s.handles fd none } :=
    h.close rfl
  have hTaken : Has w ((fd, .stream) :: (l ++ m)) t := by
    refine hClosed.take (Function.update_self ..) ?_
    rw [hHandles, Function.update_idem]
  refine ⟨hTaken.holds.perm (List.perm_middle.symm.map Prod.fst), fun x hx => ?_⟩
  exact hTaken.kinds x (List.perm_middle.mem_iff.mp hx)

end Has

end Esp32Fx.Eink.Supervisor
