import Esp32Fx.Native.RequestFacts

/-! A request that succeeds: where memory and libcurl do, a request that is well formed and not
answered locally can be sent, whatever arrives. -/

namespace Esp32Fx.Native.Request

open Lib Program

variable {build : Build} {args : Arguments} {w : Host}

theorem copyString_runs {s : Host} {bytes : List UInt8} {limit block : Nat}
    (h : Copyable bytes limit) (hFree : s.blocks block = none) :
    Runs host s (copyString bytes limit) (some ⟨block, bytes⟩)
      { s with blocks := Function.update s.blocks block (some (bytes.length + 1)) } := by
  have hFine : ¬(bytes.length = 0 ∨ bytes.length > limit ∨ 0 ∈ bytes) := by
    rintro (hEmpty | hLong | hNul)
    · exact h.nonempty hEmpty
    · exact absurd h.length (by omega)
    · exact h.nulFree hNul
  unfold copyString
  rw [if_neg hFine]
  have hCall : host s (.malloc (bytes.length + 1)) (some block : Option Nat)
      { s with blocks := Function.update s.blocks block (some (bytes.length + 1)) } := ⟨hFree, rfl⟩
  exact runs_perform_bind hCall (.ret _ _)

theorem setOptions_runs {s : Host} {curl : Nat} (options before : List CurlOption) :
    Runs host (s.configured curl before) (setOptions curl options) true
      (s.configured curl (before ++ options)) := by
  induction options generalizing before with
  | nil =>
    rw [List.append_nil]
    exact .ret _ _
  | cons option options ih =>
    have hCall : host (s.configured curl before) (.setOption curl option) true
        (s.configured curl (before ++ [option])) := by
      simp [host, Host.configured]
    have hRest := ih (before ++ [option])
    rw [List.append_assoc] at hRest
    exact runs_perform_bind hCall hRest

theorem performTransfer_runs {s : Host} {curl : Nat} {options : List CurlOption}
    (hOptions : s.transfers curl = some options) (arrival : Arrival) (code : Option Int)
    (sink : ByteSink) (bufs : Buffers) :
    Runs host s (performTransfer build curl sink bufs)
      (outcomeOf build (networkExchange arrival code) sink bufs)
      { s with performed := s.performed ++ [⟨options, arrival⟩] } := by
  have hCall : host s (.transfer curl) arrival
      { s with performed := s.performed ++ [⟨options, arrival⟩] } := by
    simp [host, hOptions]
  refine runs_perform_bind hCall ?_
  have hOutcome := networkExchange_outcome build arrival sink bufs code
  rw [performRequest_status]
  generalize Native.performRequest build.cfg build.libc (some 0) arrival.chunks sink bufs = written
    at hOutcome ⊢
  rw [hOutcome]
  obtain ⟨_ | _, sink, bufs⟩ := written
  · exact .ret _ _
  cases arrival.complete with
  | false => exact .ret _ _
  | true =>
    refine runs_perform_bind (x := code) rfl ?_
    cases code with
    | none => exact .ret _ _
    | some code =>
      simp only [statusOf, Option.bind_some, if_true]
      split
      · exact .ret _ _
      · exact .ret _ _

theorem serveLocalModelCatalog_declines {s : Host} {method url : List UInt8}
    (h : ¬CatalogAsked s.env method url) (sink : ByteSink) (bufs : Buffers) :
    Runs host s (serveLocalModelCatalog build.cfg build.libc method url sink bufs)
      (.declined, sink, bufs) s := by
  have hCall : ∀ name, host s (.getenv name) (s.env name) s := fun name => ⟨rfl, rfl⟩
  refine runs_perform_bind (hCall _) (runs_perform_bind (hCall _) ?_)
  by_cases hEnabled : (s.env .localModelCatalog).map Subtype.val ≠ some (ascii "1")
  · rw [if_pos hEnabled]
    exact .ret _ _
  rw [if_neg hEnabled]
  by_cases hOther : method ≠ ascii "GET" ∨ ¬catalogSuffix <:+ url
  · rw [if_pos hOther]
    exact .ret _ _
  · rw [not_or, not_not, not_not] at hOther
    exact absurd ⟨not_not.mp hEnabled, hOther⟩ h

theorem serveFixtureChat_declines {s : Host} {method url : List UInt8}
    (hCatalog : ¬CatalogAsked s.env method url) (hRemote : localResponse s.env method url = none)
    (sink : ByteSink) (bufs : Buffers) :
    Runs host s (serveFixtureChat build.cfg build.libc method sink bufs)
      (.declined, sink, bufs) s := by
  have hCall : host s (.getenv .fixtureText) (s.env .fixtureText) s := ⟨rfl, rfl⟩
  refine runs_perform_bind hCall ?_
  rw [localResponse, if_neg hCatalog] at hRemote
  cases hText : s.env .fixtureText with
  | none => exact .ret _ _
  | some fixture =>
    obtain ⟨fixture, hNul⟩ := fixture
    rw [hText, Option.bind_some] at hRemote
    dsimp only at hRemote ⊢
    by_cases hOther : fixture = [] ∨ method ≠ ascii "POST"
    · rw [if_pos hOther]
      exact .ret _ _
    · rw [if_neg hOther] at hRemote
      split at hRemote
      · cases hRemote
      · cases hRemote

/-- The part of a request that is neither malformed nor answered locally. -/
theorem answerRequest_runs (build : Build) {s : Host} {url : List UInt8} {trust : List CurlOption}
    (hCatalog : ¬CatalogAsked s.env args.method url)
    (hRemote : localResponse s.env args.method url = none)
    (hAccepted : (parseHeaders build.cfg build.memory args.headers).accepted = true)
    (hTrust : trustOptions build.streamCa ((s.env .caBundle).map Subtype.val) = some trust)
    (hFree : s.transfers 0 = none) (arrival : Arrival) (code : Option Int) (sink : ByteSink)
    (bufs : Buffers) :
    ∃ t, Runs host s (answerRequest build args args.method url sink bufs)
        (some 0, (parseHeaders build.cfg build.memory args.headers).lines,
          outcomeOf build (networkExchange arrival code) sink bufs) t ∧
      t.performed = s.performed ++ [⟨trust ++ requestOptions args.method url
        (parseHeaders build.cfg build.memory args.headers).lines ++ bodyOptions args.body,
        arrival⟩] := by
  generalize hLines : (parseHeaders build.cfg build.memory args.headers).lines = lines
  generalize hAppended : ({ s with headers := s.headers ++ lines } : Host) = u
  have hAppend : host s (.appendHeaders lines) () u := hAppended.symm
  have hInit : host u .initCurl (some 0 : Option Nat) (u.configured 0 []) :=
    ⟨by rw [← hAppended, hFree], rfl⟩
  have hBundle : host (u.configured 0 []) (.getenv .caBundle) (s.env .caBundle)
      (u.configured 0 []) := ⟨by rw [← hAppended]; rfl, rfl⟩
  generalize hOptions : trust ++ requestOptions args.method url lines ++ bodyOptions args.body =
    options
  have hSet : Runs host (u.configured 0 []) (setOptions 0 options) true (u.configured 0 options) :=
    setOptions_runs options []
  have hHeld : (u.configured 0 options).transfers 0 = some options := by
    simp only [Host.configured, Function.update_self]
  obtain ⟨v, hPerform, hSame⟩ : ∃ v, Runs host (u.configured 0 options)
      (performTransfer build 0 sink bufs)
      (outcomeOf build (networkExchange arrival code) sink bufs) v ∧
      v.performed = s.performed ++ [⟨options, arrival⟩] :=
    ⟨_, performTransfer_runs hHeld arrival code sink bufs, by rw [← hAppended]; rfl⟩
  have hNetwork : Runs host u (performNetwork build args args.method url lines sink bufs)
      (some 0, outcomeOf build (networkExchange arrival code) sink bufs) v := by
    refine runs_perform_bind hInit (runs_perform_bind hBundle ?_)
    rw [hTrust]
    dsimp only
    rw [hOptions]
    exact hSet.bind (hPerform.bind (.ret _ _))
  refine ⟨v, ?_, by rw [hSame, ← hOptions]⟩
  refine (serveLocalModelCatalog_declines hCatalog sink bufs).bind ?_
  refine (serveFixtureChat_declines hCatalog hRemote sink bufs).bind ?_
  dsimp only
  rw [hAccepted, hLines]
  exact runs_perform_bind hAppend (hNetwork.bind (.ret _ _))

/-- A request that is well formed and not answered locally can be sent, whatever arrives. -/
theorem performRequest_sends (args : Arguments) {trust : List CurlOption} (hClear : Clear w)
    (hBlocks : ∀ block < 2, w.blocks block = none) (hTransfers : w.transfers 0 = none)
    (hMethod : Copyable args.method maxMethodBytes) (hUrl : Copyable args.url maxUrlBytes)
    (hPlain : w.env .gatewayBaseUrl = none)
    (hCatalog : ¬CatalogAsked w.env args.method args.url)
    (hRemote : localResponse w.env args.method args.url = none)
    (hAccepted : (parseHeaders build.cfg build.memory args.headers).accepted = true)
    (hTrust : trustOptions build.streamCa ((w.env .caBundle).map Subtype.val) = some trust)
    (arrival : Arrival) (code : Option Int) (sink : ByteSink) (bufs : Buffers) :
    ∃ t, Runs host w (performRequest build args sink bufs)
        (outcomeOf build (networkExchange arrival code) sink bufs) t ∧
      t.performed = w.performed ++ [⟨trust ++ requestOptions args.method args.url
        (parseHeaders build.cfg build.memory args.headers).lines ++ bodyOptions args.body,
        arrival⟩] := by
  obtain ⟨s, hStart⟩ : ∃ s : Host, s = { w with roots := build.streamCa } := ⟨_, rfl⟩
  have hInit : Runs host w (initTrust build) () s := by
    unfold initTrust
    cases hStream : build.streamCa with
    | false =>
      rw [hStream, ← hClear.roots] at hStart
      subst hStart
      exact .ret _ _
    | true =>
      rw [hStream] at hStart
      exact .call () hStart (.ret _ _)
  have hFreeTrust : ∀ t : Host, ∃ u, Runs host t (freeTrust build) () u ∧
      u = { t with roots := u.roots } := by
    intro t
    unfold freeTrust
    cases build.streamCa with
    | false => exact ⟨t, .ret _ _, rfl⟩
    | true =>
      have hCall : host t .freeRoots () { t with roots := false } := rfl
      exact ⟨_, .call () hCall (.ret _ _), rfl⟩
  have hFree : ∀ (t : Host) block, Runs host t (free block) ()
      { t with blocks := Function.update t.blocks block none } := by
    intro t block
    have hCall : host t (.free block) ()
        { t with blocks := Function.update t.blocks block none } := rfl
    exact .call () hCall (.ret _ _)
  obtain ⟨one, hFirst, hNext, hOne⟩ : ∃ one, Runs host s (copyString args.method maxMethodBytes)
      (some ⟨0, args.method⟩) one ∧ one.blocks 1 = none ∧ one = { s with blocks := one.blocks } := by
    refine ⟨_, copyString_runs hMethod (by rw [hStart]; exact hBlocks 0 (by decide)), ?_, rfl⟩
    dsimp only
    rw [Function.update_of_ne (by decide), hStart]
    exact hBlocks 1 (by decide)
  obtain ⟨two, hSecond, hTwo⟩ : ∃ two, Runs host one (copyUrl args.url) (some ⟨1, args.url⟩) two ∧
      two = { s with blocks := two.blocks } := by
    have hBase : ∀ t : Host, t.env = w.env →
        host t (.getenv .gatewayBaseUrl) (none : Option Text) t :=
      fun t hEnv => ⟨by rw [hEnv]; exact hPlain.symm, rfl⟩
    refine ⟨_, (copyString_runs hUrl hNext).bind
      (runs_perform_bind (hBase _ (by rw [hOne, hStart])) (.ret _ _)), by rw [hOne]⟩
  have hEnv : two.env = w.env := by rw [hTwo, hStart]
  obtain ⟨three, hThree, hPerformed⟩ := answerRequest_runs build (s := two) (hEnv ▸ hCatalog) (hEnv ▸ hRemote) hAccepted (hEnv ▸ hTrust)
    (by rw [hTwo, hStart]; exact hTransfers) arrival code sink bufs
  obtain ⟨five, hFive, hSame⟩ := hFreeTrust
    { three with transfers := Function.update three.transfers 0 none }
  have hCleanup : host three (.cleanup 0) ()
      { three with transfers := Function.update three.transfers 0 none } := rfl
  have hHeaders : host five (.freeHeaders (parseHeaders build.cfg build.memory args.headers).lines) ()
      { five with headers := [] } := rfl
  refine ⟨_, hInit.bind (hFirst.bind (hSecond.bind (hThree.bind (runs_perform_bind hCleanup
    (hFive.bind (runs_perform_bind hHeaders
      ((hFree _ 0).bind ((hFree _ 1).bind (.ret _ _))))))))), ?_⟩
  have hAll : five.performed = three.performed := by rw [hSame]
  have hBefore : two.performed = w.performed := by rw [hTwo, hStart]
  exact hAll.trans (hPerformed.trans (by rw [hBefore]))

/-! ### A run -/

/-- A build without a trust callback, with memory for everything. -/
def plainBuild : Build := ⟨board, fun _ => true, fun _ => true, false⟩

def getRequest : Arguments := ⟨ascii "GET", ascii "https://a/b", ascii "[]", []⟩

/-- A host with an empty environment. -/
def emptyHost : Host := ⟨fun _ => none, fun _ => none, fun _ => none, [], false, [], false⟩

/-- The response to `getRequest`. -/
def greeting : Arrival := ⟨[.ofBytes (ascii "hi")], true⟩

def emptyBuffers : Buffers := .initial (List.replicate 16 0)

theorem emptyHost_clear : Clear emptyHost := ⟨rfl, rfl⟩

theorem getRequest_sends {build : Build} {trust : List CurlOption} (hClear : Clear w)
    (hBlocks : ∀ block, w.blocks block = none) (hTransfers : ∀ curl, w.transfers curl = none)
    (hEnv : ∀ name, name ≠ .caBundle → w.env name = none)
    (hAccepted : (parseHeaders build.cfg build.memory getRequest.headers).accepted = true)
    (hTrust : trustOptions build.streamCa ((w.env .caBundle).map Subtype.val) = some trust)
    (sink : ByteSink) (bufs : Buffers) :
    ∃ t, Runs host w (performRequest build getRequest sink bufs)
        (outcomeOf build (networkExchange greeting (some 200)) sink bufs) t ∧
      t.performed ≠ w.performed := by
  have hCatalog : ¬CatalogAsked w.env getRequest.method getRequest.url := by
    rintro ⟨hEnabled, -⟩
    rw [hEnv .localModelCatalog (by decide)] at hEnabled
    cases hEnabled
  have hRemote : localResponse w.env getRequest.method getRequest.url = none := by
    rw [localResponse, if_neg hCatalog, hEnv .fixtureText (by decide)]
    rfl
  obtain ⟨t, hRun, hPerformed⟩ := performRequest_sends getRequest hClear (fun block _ => hBlocks block)
    (hTransfers 0) ⟨by decide, by decide, by decide⟩
    ⟨by decide, by decide, by decide⟩ (hEnv .gatewayBaseUrl (by decide)) hCatalog hRemote hAccepted
    hTrust greeting (some 200) sink bufs
  refine ⟨t, hRun, ?_⟩
  rw [hPerformed]
  exact fun hEq => absurd hEq (by simp)

theorem getRequest_runs (sink : ByteSink) (bufs : Buffers) :
    ∃ t, Runs host emptyHost (performRequest plainBuild getRequest sink bufs)
        (outcomeOf plainBuild (networkExchange greeting (some 200)) sink bufs) t ∧
      t.performed ≠ emptyHost.performed :=
  getRequest_sends emptyHost_clear (fun _ => rfl) (fun _ => rfl) (fun _ _ => rfl) (by decide) rfl
    sink bufs

end Esp32Fx.Native.Request
