import Esp32Fx.Native.RequestSends
import Esp32Fx.Native.StreamFacts

/-! The callers of `perform_request`: one request of a guest into a buffer of its own, and whole runs
of the calls that a guest makes on the streams, where every open is a request. -/

namespace Esp32Fx.Native.Request

open Lib Program

/-! ### The callers -/

/-- The calls of a guest on the streams. -/
inductive GuestCall
  | open (args : Arguments)
  | status (handle : Int)
  | next (handle : Int) (cap : UInt32)
  | close (handle : Int)

structure World where
  native : NativeState
  host : Host

/-- A host in which no call has failed yet. -/
def Host.fresh (w : Host) : Host := { w with failed := false }

variable {build : Build} {args : Arguments} {w t : Host} {sink : ByteSink} {bufs : Buffers}

/-! ### One request -/

/-- Every run of `perform_request` hands the sink one exchange: the one that the environment
prescribes for the request, or one with the network, asked with the options of the request.  It is
refused only where the method or the URL is malformed, the environment names a model that is not safe
or a fixture that is too long, the headers are not accepted, the trust path is not absolute, or a call
fails. -/
theorem performRequest_answers (hClear : Clear w) {outcome : Outcome}
    (h : Runs host w (performRequest build args sink bufs) outcome t) :
    ∃ exchange, outcome = outcomeOf build exchange sink bufs ∧
      Answered build args w t exchange :=
  (h.keeps (performRequest_keeps hClear sink bufs)).2.2

theorem performRequest_answers_get : ∃ t exchange,
    outcomeOf plainBuild (networkExchange greeting (some 200)) (openSink board none) emptyBuffers =
      outcomeOf plainBuild exchange (openSink board none) emptyBuffers ∧
    Answered plainBuild getRequest emptyHost t exchange := by
  obtain ⟨t, hRun, _⟩ := getRequest_runs (openSink board none) emptyBuffers
  obtain ⟨exchange, hAnswered⟩ := performRequest_answers emptyHost_clear hRun
  exact ⟨t, exchange, hAnswered⟩

/-- Every run of `perform_request` gives back the strings, the transfer, the header lines and the
trust roots that it takes, and no release is of something that is not held.  The list of header lines
is whole where libcurl reads it and where it is freed. -/
theorem performRequest_restores (hClear : Clear w) :
    (∀ outcome t, Runs host w (performRequest build args sink bufs) outcome t → Restored w t) ∧
    ∀ c t, Reaches host w (performRequest build args sink bufs) c t →
      (∀ block, c = .free block → t.blocks block ≠ none) ∧
      (∀ curl, c = .cleanup curl → t.transfers curl ≠ none) ∧
      (c = .freeRoots → t.roots = true) ∧
      (∀ curl, c = .transfer curl →
        t.headers = (parseHeaders build.cfg build.memory args.headers).lines) ∧
      (∀ lines, c = .freeHeaders lines → t.headers = lines) ∧
      (c = .nullString → (t.env .localModelCatalog).map Subtype.val = some (ascii "1") ∧
        t.env .model = none) := by
  have hKeeps : BridgeKeeps build args _ (performRequest build args sink bufs) w :=
    performRequest_keeps hClear sink bufs
  refine ⟨fun outcome t h => (h.keeps hKeeps).2.1, fun c t h => ?_⟩
  have hProper : Proper build args c t := h.keeps hKeeps
  refine ⟨?_, ?_, ?_, ?_, ?_, ?_⟩
  · rintro block rfl
    exact hProper
  · rintro curl rfl
    exact hProper
  · rintro rfl
    exact hProper
  · rintro curl rfl
    exact hProper.2.1
  · rintro lines rfl
    exact hProper
  · rintro rfl
    exact hProper

theorem performRequest_restores_get : ∃ outcome t, Runs host emptyHost
    (performRequest plainBuild getRequest (openSink board none) emptyBuffers) outcome t ∧
    Restored emptyHost t := by
  obtain ⟨t, hRun, _⟩ := getRequest_runs (openSink board none) emptyBuffers
  exact ⟨_, t, hRun, (performRequest_restores emptyHost_clear).1 _ _ hRun⟩

/-- The trust roots of a transfer: of the callback, of a file, or those that libcurl has itself. -/
theorem trustOptions_cases {streamCa : Bool} {caBundle : Option (List UInt8)}
    {trust : List CurlOption} (h : trustOptions streamCa caBundle = some trust) :
    (streamCa = true ∧ peek (caBundle.getD defaultCaBundle) = 0x2f ∧
      trust = [.caInfo none, .caPath none, .sslCtxFunction,
        .sslCtxData (caBundle.getD defaultCaBundle)]) ∨
    (streamCa = false ∧
      (caBundle = none ∧ trust = [] ∨
        ∃ path, caBundle = some path ∧ peek path = 0x2f ∧ trust = [.caInfo (some path)])) := by
  unfold trustOptions at h
  cases streamCa with
  | true =>
    simp only [if_true] at h
    split at h
    · cases h
    · next hPath => exact .inl ⟨rfl, not_not.mp hPath, (Option.some.inj h).symm⟩
  | false =>
    refine .inr ⟨rfl, ?_⟩
    cases caBundle with
    | none => exact .inl ⟨rfl, (Option.some.inj h).symm⟩
    | some path =>
      simp only [Bool.false_eq_true, if_false] at h
      split at h
      · cases h
      · next hPath => exact .inr ⟨path, rfl, not_not.mp hPath, (Option.some.inj h).symm⟩

/-- The options of a transfer that is checked: the peer and its name are verified, only HTTP and HTTPS
are spoken, and nothing but the request is sent.  The trust roots are in a build with the callback
those of the path that is set, else of the default one, and libcurl's own files are off; in a build
without it they are those of the path that is set, else those that libcurl has itself. -/
structure Checked (build : Build) (args : Arguments) (caBundle : Option (List UInt8))
    (url : List UInt8) (options : List CurlOption) : Prop where
  peer : ∀ value, .sslVerifyPeer value ∈ options ↔ value = 1
  host : ∀ value, .sslVerifyHost value ∈ options ↔ value = 2
  protocols : ∀ protocols, .protocols protocols ∈ options ↔ protocols = ascii "http,https"
  url : ∀ u, .url u ∈ options ↔ u = url
  method : ∀ method, .customRequest method ∈ options ↔ method = args.method
  headers : ∀ lines, .httpHeader lines ∈ options ↔
    lines = (parseHeaders build.cfg build.memory args.headers).lines
  body : ∀ body, .postFields body ∈ options ↔ args.body ≠ [] ∧ body = args.body
  bodySize : ∀ size, .postFieldSize size ∈ options ↔
    args.body ≠ [] ∧ size = args.body.length
  callback : .sslCtxFunction ∈ options ↔ build.streamCa = true
  roots : ∀ path, .sslCtxData path ∈ options ↔
    build.streamCa = true ∧ path = caBundle.getD defaultCaBundle
  bundle : ∀ path, .caInfo path ∈ options ↔
    if build.streamCa then path = none else path = caBundle ∧ caBundle ≠ none
  directory : ∀ path, .caPath path ∈ options ↔ build.streamCa = true ∧ path = none
  absolute : peek (caBundle.getD defaultCaBundle) = 0x2f

theorem Asks.checked {env : Variable → Option Text} {url : List UInt8} {options : List CurlOption}
    (h : Asks build args env url options) :
    Checked build args ((env .caBundle).map Subtype.val) url options := by
  obtain ⟨trust, hTrust, rfl⟩ := h.options
  have hBody : ∀ option, option ∈ bodyOptions args.body ↔
      args.body ≠ [] ∧ (option = .postFields args.body ∨
        option = .postFieldSize args.body.length) := by
    intro option
    unfold bodyOptions
    split
    · next hLength => simp [List.length_pos_iff.mp hLength]
    · next hLength =>
      have hEmpty : args.body = [] := List.length_eq_zero_iff.mp (by omega)
      simp [hEmpty]
  generalize (env .caBundle).map Subtype.val = caBundle at hTrust
  have hDefault : peek defaultCaBundle = 0x2f := by decide
  rcases trustOptions_cases hTrust with ⟨hStream, hPath, rfl⟩ |
    ⟨hStream, ⟨rfl, rfl⟩ | ⟨path, rfl, hPath, rfl⟩⟩
  · constructor <;> simp [hBody, hStream, requestOptions, hPath]
  · constructor <;> simp [hBody, hStream, requestOptions, hDefault]
  · constructor <;> simp [hBody, hStream, requestOptions, hPath]

/-- An open finds no slot, or the lent buffer in use. -/
def Busy (s : NativeState) : Prop :=
  freeSlot s.streams = none ∨ (s.borrowedBytes.isSome && anyUsed s.streams) = true

/-- A call of a guest as a call on the table of streams: an open is the exchange that answers its
request, with what it performed; without room for a stream nothing is performed. -/
inductive Serves (build : Build) (env : Variable → Option Text) (s : NativeState) :
    GuestCall → StreamCall → List Performed → Prop
  | busy (args : Arguments) (exchange : Exchange) (hBusy : Busy s) :
    Serves build env s (.open args) (.open exchange) []
  | answered {args : Arguments} {exchange : Exchange} {w t : Host} {sent : List Performed}
    (hFree : ¬Busy s) (hEnv : w.env = env) (hFresh : w.failed = false)
    (hSent : t.performed = w.performed ++ sent) (hAnswered : Answered build args w t exchange) :
    Serves build env s (.open args) (.open exchange) sent
  | status (handle : Int) : Serves build env s (.status handle) (.status handle) []
  | next (handle : Int) (cap : UInt32) : Serves build env s (.next handle cap) (.next handle cap) []
  | close (handle : Int) : Serves build env s (.close handle) (.close handle) []

/-- A run of the table of streams that serves the calls of a guest. -/
inductive Follows (build : Build) (env : Variable → Option Text) (s₀ : NativeState × Client) :
    List GuestCall → List Performed → NativeState × Client → Prop
  | nil : Follows build env s₀ [] [] s₀
  | snoc {calls : List GuestCall} {log sent : List Performed} {s : NativeState × Client}
    {call : GuestCall} {served : StreamCall} (h : Follows build env s₀ calls log s)
    (hServes : Serves build env s.1 call served sent) :
    Follows build env s₀ (calls ++ [call]) (log ++ sent)
      (served.perform build.cfg build.libc s)

variable {s s' : NativeState} {env : Variable → Option Text} {calls : List GuestCall}
  {log : List Performed} {client : Client}

/-- What serves a guest is a run of the table of streams. -/
theorem Follows.run {s₀ s : NativeState × Client} (h : Follows build env s₀ calls log s) :
    ∃ served, (streamSystem build.cfg build.libc).Run s₀ served s := by
  induction h with
  | nil => exact ⟨[], .nil _⟩
  | snoc _ _ ih =>
    obtain ⟨served, hRun⟩ := ih
    exact ⟨_, hRun.snoc rfl⟩

theorem Answered.performed {exchange : Exchange} (h : Answered build args w t exchange) :
    ∃ sent, t.performed = w.performed ++ sent := by
  cases h with
  | malformed _ hSame | failed _ hSame | catalog _ _ hSame | fixture _ _ hSame | barred _ _ hSame
  | unsent _ _ _ hSame =>
    exact ⟨[], by rw [hSame, List.append_nil]⟩
  | sent _ _ hPerformed => exact ⟨_, hPerformed⟩

end Esp32Fx.Native.Request
