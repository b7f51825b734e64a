import Esp32Fx.Lib.Holdings
import Esp32Fx.Native.Request
import Esp32Fx.Native.SinkFacts

/-! What `perform_request` does: every run is one exchange with the sink, answered by the environment
or by the network; the network is asked only with the options of a checked connection; and what a
request takes it gives back. -/

namespace Esp32Fx.Native.Request

open Lib Program

variable {build : Build} {args : Arguments} {cfg : Config} {libc : Nat → Bool} {sink : ByteSink}
  {bufs : Buffers}

/-! ### Exchanges -/

/-- What an exchange makes of a sink. -/
def outcomeOf (build : Build) (exchange : Exchange) (sink : ByteSink) (bufs : Buffers) : Outcome :=
  Native.performRequest build.cfg build.libc exchange.status exchange.chunks sink bufs

/-- A request that ends before anything is written. -/
def refusedExchange : Exchange := ⟨[], none⟩

def catalogExchange (model : List UInt8) : Exchange where
  chunks := [.ofBytes catalogPrefix, .ofBytes model, .ofBytes catalogTail]
  status := some 200

/-- The chunks of a text as a JSON string. -/
def jsonChunks (text : List UInt8) : List Chunk :=
  .ofBytes [0x22] :: text.map (fun ch => .ofBytes (escaped ch)) ++ [.ofBytes [0x22]]

def fixtureExchange (fixture : List UInt8) : Exchange where
  chunks := .ofBytes fixturePrefix :: jsonChunks fixture ++ [.ofBytes fixtureSuffix]
  status := some 200

/-- The status of a response code. -/
def statusOf (code : Option Int) : Option UInt16 :=
  code.bind fun code => if code < 0 ∨ code > 65535 then none else some (.ofNat code.toNat)

def networkExchange (arrival : Arrival) (code : Option Int) : Exchange where
  chunks := arrival.chunks
  status := if arrival.complete then statusOf code else none

/-- Chunks in two parts. -/
theorem performRequest_append (cfg : Config) (libc : Nat → Bool) (status : Option UInt16)
    (chunks chunks' : List Chunk) (sink : ByteSink) (bufs : Buffers) :
    Native.performRequest cfg libc status (chunks ++ chunks') sink bufs =
      match Native.performRequest cfg libc (some 0) chunks sink bufs with
      | (none, sink, bufs) => (none, sink, bufs)
      | (some _, sink, bufs) => Native.performRequest cfg libc status chunks' sink bufs := by
  induction chunks generalizing sink bufs with
  | nil => rfl
  | cons chunk chunks ih =>
    simp only [List.cons_append, Native.performRequest]
    split
    · exact ih _ _
    · rfl

/-- The status is what an exchange answers when the sink has taken all of it. -/
theorem performRequest_status (status : Option UInt16) (chunks : List Chunk) (sink : ByteSink)
    (bufs : Buffers) :
    Native.performRequest cfg libc status chunks sink bufs =
      match Native.performRequest cfg libc (some 0) chunks sink bufs with
      | (none, sink, bufs) => (none, sink, bufs)
      | (some _, sink, bufs) => (status, sink, bufs) := by
  have h := performRequest_append cfg libc status chunks [] sink bufs
  rwa [List.append_nil] at h

/-- A chunk is taken whole or not at all. -/
theorem writeBody_count (cfg : Config) (libc : Nat → Bool) (chunk : Chunk) (sink : ByteSink) (bufs : Buffers) :
    (writeBody cfg libc chunk sink bufs).1 = 0 ∨
      (writeBody cfg libc chunk sink bufs).1 = chunk.size * chunk.nmemb := by
  simp only [writeBody]
  repeat' split
  all_goals simp

/-- A first chunk that is checked for the count 0. -/
theorem performRequest_write {bytes : List UInt8} (hBytes : bytes ≠ []) (status : Option UInt16)
    (chunks : List Chunk) (sink : ByteSink) (bufs : Buffers) :
    Native.performRequest cfg libc status (.ofBytes bytes :: chunks) sink bufs =
      match writeBody cfg libc (.ofBytes bytes) sink bufs with
      | (0, sink, bufs) => (none, sink, bufs)
      | (_ + 1, sink, bufs) => Native.performRequest cfg libc status chunks sink bufs := by
  have hLength : bytes.length ≠ 0 := fun h => hBytes (List.length_eq_zero_iff.mp h)
  have hCount := writeBody_count cfg libc (.ofBytes bytes) sink bufs
  rw [Native.performRequest]
  generalize writeBody cfg libc (.ofBytes bytes) sink bufs = written at hCount ⊢
  obtain ⟨_ | count, sink, bufs⟩ := written
  · exact if_neg fun h => hLength (by simpa [Chunk.ofBytes] using h.symm)
  · exact if_pos (hCount.resolve_left (by simp))

/-- A first chunk that is appended. -/
theorem performRequest_sinkAppend {bytes : List UInt8} (hBytes : bytes ≠ [])
    (status : Option UInt16) (chunks : List Chunk) (sink : ByteSink) (bufs : Buffers) :
    Native.performRequest cfg libc status (.ofBytes bytes :: chunks) sink bufs =
      match sinkAppend cfg libc bytes sink bufs with
      | (false, sink, bufs) => (none, sink, bufs)
      | (true, sink, bufs) => Native.performRequest cfg libc status chunks sink bufs := by
  have hLength : bytes.length ≠ 0 := fun h => hBytes (List.length_eq_zero_iff.mp h)
  rw [Native.performRequest, sinkAppend, if_neg hLength]
  generalize writeBody cfg libc (.ofBytes bytes) sink bufs = written
  obtain ⟨count, sink, bufs⟩ := written
  by_cases hCount : count = bytes.length
  · simp [Chunk.ofBytes, hCount]
  · simp [Chunk.ofBytes, hCount]

/-- The writes of the catalog are its exchange. -/
theorem writeCatalog_eq (build : Build) {model : List UInt8} (hModel : model ≠ [])
    (sink : ByteSink) (bufs : Buffers) :
    outcomeOf build (catalogExchange model) sink bufs =
      match writeCatalog build.cfg build.libc model sink bufs with
      | (false, sink, bufs) => (none, sink, bufs)
      | (true, sink, bufs) => (some 200, sink, bufs) := by
  rw [outcomeOf, catalogExchange, writeCatalog, performRequest_write (by decide)]
  rcases writeBody build.cfg build.libc (.ofBytes catalogPrefix) sink bufs with
    ⟨_ | count, sink, bufs⟩
  · rfl
  dsimp only
  rw [performRequest_write hModel]
  rcases writeBody build.cfg build.libc (.ofBytes model) sink bufs with ⟨_ | count, sink, bufs⟩
  · rfl
  dsimp only
  rw [performRequest_write (by decide)]
  rcases writeBody build.cfg build.libc (.ofBytes catalogTail) sink bufs with
    ⟨_ | count, sink, bufs⟩
  · rfl
  · rfl

/-- The chunks of a JSON string are those that `sink_append_json_string` appends. -/
theorem performRequest_json {text : List UInt8} (hNul : (0 : UInt8) ∉ text)
    (status : Option UInt16) (chunks : List Chunk) (sink : ByteSink) (bufs : Buffers) :
    Native.performRequest cfg libc status (jsonChunks text ++ chunks) sink bufs =
      match sinkAppendJsonString cfg libc text sink bufs with
      | (false, sink, bufs) => (none, sink, bufs)
      | (true, sink, bufs) => Native.performRequest cfg libc status chunks sink bufs := by
  have hEscaped : ∀ sink bufs, Native.performRequest cfg libc status
      (text.map (fun ch => .ofBytes (escaped ch)) ++ .ofBytes [0x22] :: chunks) sink bufs =
      match sinkAppendEscaped cfg libc text sink bufs with
      | (false, sink, bufs) => (none, sink, bufs)
      | (true, sink, bufs) => Native.performRequest cfg libc status chunks sink bufs := by
    clear sink bufs
    induction text with
    | nil => exact performRequest_sinkAppend (by simp) status chunks
    | cons ch text ih =>
      intro sink bufs
      obtain ⟨hHere, hRest⟩ := not_or.mp (mt List.mem_cons.mpr hNul)
      rw [List.map_cons, List.cons_append, performRequest_sinkAppend (escaped_ne_nil ch),
        sinkAppendEscaped, if_neg (Ne.symm hHere)]
      rcases sinkAppend cfg libc (escaped ch) sink bufs with ⟨_ | _, sink, bufs⟩
      · rfl
      · exact ih hRest sink bufs
  rw [jsonChunks, List.cons_append, List.cons_append, List.append_assoc,
    performRequest_sinkAppend (by simp), sinkAppendJsonString]
  rcases sinkAppend cfg libc [0x22] sink bufs with ⟨_ | _, sink, bufs⟩
  · rfl
  · exact hEscaped sink bufs

/-- The appends of the fixture are its exchange. -/
theorem appendFixture_eq (build : Build) {fixture : List UInt8} (hNul : (0 : UInt8) ∉ fixture)
    (sink : ByteSink) (bufs : Buffers) :
    outcomeOf build (fixtureExchange fixture) sink bufs =
      match appendFixture build.cfg build.libc fixture sink bufs with
      | (false, sink, bufs) => (none, sink, bufs)
      | (true, sink, bufs) => (some 200, sink, bufs) := by
  rw [outcomeOf, fixtureExchange, appendFixture, List.cons_append,
    performRequest_sinkAppend (by decide)]
  rcases sinkAppend build.cfg build.libc fixturePrefix sink bufs with ⟨_ | _, sink, bufs⟩
  · rfl
  dsimp only
  rw [performRequest_json hNul]
  rcases sinkAppendJsonString build.cfg build.libc fixture sink bufs with ⟨_ | _, sink, bufs⟩
  · rfl
  dsimp only
  rw [performRequest_sinkAppend (by decide)]
  rcases sinkAppend build.cfg build.libc fixtureSuffix sink bufs with ⟨_ | _, sink, bufs⟩
  · rfl
  · rfl

/-! ### What is asked -/

/-- The model catalog is asked for, and served locally. -/
def CatalogAsked (env : Variable → Option Text) (method url : List UInt8) : Prop :=
  (env .localModelCatalog).map Subtype.val = some (ascii "1") ∧ method = ascii "GET" ∧
    catalogSuffix <:+ url

instance (env : Variable → Option Text) (method url : List UInt8) :
    Decidable (CatalogAsked env method url) := inferInstanceAs (Decidable (_ ∧ _ ∧ _))

/-- What the environment prescribes in place of the network. -/
inductive LocalResponse
  | catalog (model : List UInt8)
  | fixture (text : List UInt8)
  /-- The model has a name that is not safe. -/
  | unsafeModel
  /-- The fixture has more than `FX_WAMR_MAX_FIXTURE_BYTES`. -/
  | longFixture
  deriving DecidableEq

def LocalResponse.exchange : LocalResponse → Exchange
  | .catalog model => catalogExchange model
  | .fixture text => fixtureExchange text
  | .unsafeModel | .longFixture => refusedExchange

def localResponse (env : Variable → Option Text) (method url : List UInt8) :
    Option LocalResponse :=
  if CatalogAsked env method url then
    (env .model).map fun model =>
      if isModelIdSafe model.val then .catalog model.val else .unsafeModel
  else
    (env .fixtureText).bind fun fixture =>
      if fixture.val = [] ∨ method ≠ ascii "POST" then none
      else if fixture.val.length > maxFixtureBytes then some .longFixture
      else some (.fixture fixture.val)

/-- A string that `copy_string` takes. -/
structure Copyable (bytes : List UInt8) (limit : Nat) : Prop where
  nonempty : bytes.length ≠ 0
  length : bytes.length ≤ limit
  nulFree : (0 : UInt8) ∉ bytes

/-- The URL of a request after `rewrite_gateway_url`.  Where memory fails it stays as it is. -/
def Addressed (env : Variable → Option Text) (failed : Bool) (url addressed : List UInt8) : Prop :=
  ∃ allocated, addressed =
    rewriteGatewayUrl (fun _ => allocated) ((env .gatewayBaseUrl).map Subtype.val) url ∧
      (failed = false → allocated = true)

/-- A request that goes to the network: to which URL, and with which options. -/
structure Asks (build : Build) (args : Arguments) (env : Variable → Option Text)
    (url : List UInt8) (options : List CurlOption) : Prop where
  distant : localResponse env args.method url = none
  headers : (parseHeaders build.cfg build.memory args.headers).accepted = true
  options : ∃ trust, trustOptions build.streamCa ((env .caBundle).map Subtype.val) = some trust ∧
    options = trust ++ requestOptions args.method url
      (parseHeaders build.cfg build.memory args.headers).lines ++ bodyOptions args.body

/-- The exchange that a request comes to, from the host `w` to the host `t`. -/
inductive Answered (build : Build) (args : Arguments) (w t : Host) : Exchange → Prop
  | malformed (h : ¬Copyable args.method maxMethodBytes ∨ ¬Copyable args.url maxUrlBytes)
    (hSame : t.performed = w.performed) : Answered build args w t refusedExchange
  | failed (h : t.failed = true) (hSame : t.performed = w.performed) :
    Answered build args w t refusedExchange
  | catalog {url model : List UInt8} (hUrl : Addressed w.env t.failed args.url url)
    (hLocal : localResponse w.env args.method url = some (.catalog model))
    (hSame : t.performed = w.performed) : Answered build args w t (catalogExchange model)
  | fixture {url text : List UInt8} (hUrl : Addressed w.env t.failed args.url url)
    (hLocal : localResponse w.env args.method url = some (.fixture text))
    (hSame : t.performed = w.performed) : Answered build args w t (fixtureExchange text)
  | barred {url : List UInt8} (hUrl : Addressed w.env t.failed args.url url)
    (hLocal : localResponse w.env args.method url = some .unsafeModel ∨
      localResponse w.env args.method url = some .longFixture)
    (hSame : t.performed = w.performed) : Answered build args w t refusedExchange
  | unsent {url : List UInt8} (hUrl : Addressed w.env t.failed args.url url)
    (hRemote : localResponse w.env args.method url = none)
    (h : (parseHeaders build.cfg build.memory args.headers).accepted = false ∨
      trustOptions build.streamCa ((w.env .caBundle).map Subtype.val) = none)
    (hSame : t.performed = w.performed) : Answered build args w t refusedExchange
  | sent {url : List UInt8} {options : List CurlOption} {arrival : Arrival} {code : Option Int}
    (hUrl : Addressed w.env t.failed args.url url) (hAsks : Asks build args w.env url options)
    (hPerformed : t.performed = w.performed ++ [⟨options, arrival⟩]) :
    Answered build args w t (networkExchange arrival code)

/-- A call that is made as it may be: on what is live, with the options complete. -/
def Proper (build : Build) (args : Arguments) : Call → Host → Prop
  | .free block, w => w.blocks block ≠ none
  | .setOption curl _, w | .responseCode curl, w | .cleanup curl, w => w.transfers curl ≠ none
  | .transfer curl, w => (build.streamCa = true → w.roots = true) ∧
    w.headers = (parseHeaders build.cfg build.memory args.headers).lines ∧
    ∃ url options, w.transfers curl = some options ∧ (∃ failed, Addressed w.env failed args.url url) ∧
      Asks build args w.env url options
  | .freeRoots, w => w.roots = true
  | .freeHeaders lines, w => w.headers = lines
  | .nullString, w =>
    (w.env .localModelCatalog).map Subtype.val = some (ascii "1") ∧ w.env .model = none
  | _, _ => True

/-- What every run of a part of `perform_request` ends with; its calls are proper. -/
abbrev BridgeKeeps {α : Type} (build : Build) (args : Arguments) (Q : α → Host → Prop)
    (p : Bridge α) (s : Host) : Prop :=
  p.Keeps host (wholeCalls host) (fun _ => True) (Proper build args) Q s

variable {w s t : Host} {mine : List Nat}

/-! ### The strings -/

/-- From `w` on, the blocks of `mine` have been taken, and nothing else has changed. -/
structure Holding (mine : List Nat) (w s : Host) : Prop where
  blocks : Holds mine w.blocks s.blocks
  env : s.env = w.env
  transfers : s.transfers = w.transfers
  headers : s.headers = w.headers
  roots : s.roots = w.roots
  performed : s.performed = w.performed

theorem Holding.malloc (h : Holding mine w s) {size : Nat} {r : Option Nat}
    (hCall : host s (.malloc size) r t) :
    Holding (r.toList ++ mine) w t ∧ t.failed = (s.failed || r.isNone) := by
  cases r with
  | none =>
    obtain rfl : t = { s with failed := true } := hCall
    exact ⟨⟨h.blocks, h.env, h.transfers, h.headers, h.roots, h.performed⟩, by simp⟩
  | some block =>
    obtain ⟨hFree, rfl⟩ := hCall
    exact ⟨⟨h.blocks.take hFree size, h.env, h.transfers, h.headers, h.roots, h.performed⟩,
      by simp⟩

/-- A block is given back. -/
theorem Holding.free {block : Nat} (h : Holding (block :: mine) w s) :
    Holding mine w { s with blocks := Function.update s.blocks block none } :=
  ⟨h.blocks.give, h.env, h.transfers, h.headers, h.roots, h.performed⟩

theorem Holding.held {block : Nat} (h : Holding mine w s) (hBlock : block ∈ mine) :
    s.blocks block ≠ none := h.blocks.held block hBlock

/-- The blocks of some strings. -/
def blocksOf (strings : Option HeapString) : List Nat := strings.toList.map HeapString.block

/-- A string was copied, or it could not be. -/
def Copied (failed : Bool) (bytes : List UInt8) (limit : Nat) : Option HeapString → Prop
  | none => failed = true ∨ ¬Copyable bytes limit
  | some copy => copy.text = bytes

theorem Copied.mono {failed failed' : Bool} {bytes : List UInt8} {limit : Nat}
    {copy : Option HeapString} (h : Copied failed bytes limit copy)
    (hFailed : failed' = false → failed = false) : Copied failed' bytes limit copy := by
  cases copy with
  | some copy => exact h
  | none =>
    refine h.imp (fun hTrue => ?_) id
    by_contra hFine
    rw [hFailed (by simpa using hFine)] at hTrue
    cases hTrue

/-- The URL was copied and rewritten, or it could not be copied. -/
def CopiedUrl (env : Variable → Option Text) (failed : Bool) (bytes : List UInt8) :
    Option HeapString → Prop
  | none => failed = true ∨ ¬Copyable bytes maxUrlBytes
  | some url => Addressed env failed bytes url.text

theorem copyString_keeps (h : Holding mine w s) (bytes : List UInt8) (limit : Nat) :
    BridgeKeeps build args (fun r t => Holding (blocksOf r ++ mine) w t ∧
      (t.failed = false → s.failed = false) ∧ Copied t.failed bytes limit r)
      (copyString bytes limit) s := by
  unfold copyString
  by_cases hBad : bytes.length = 0 ∨ bytes.length > limit ∨ 0 ∈ bytes
  · rw [if_pos hBad]
    refine ⟨trivial, h, id, .inr fun hCopyable => ?_⟩
    rcases hBad with hEmpty | hLong | hNul
    · exact hCopyable.nonempty hEmpty
    · exact absurd hCopyable.length (by omega)
    · exact hCopyable.nulFree hNul
  · rw [if_neg hBad]
    refine keeps_perform_bind trivial trivial ?_
    intro r t hCall
    obtain ⟨hHolding, hFailed⟩ := h.malloc hCall
    cases r with
    | none => exact ⟨trivial, hHolding, by simp [hFailed], .inl (by simp [hFailed])⟩
    | some block => exact ⟨trivial, hHolding, by simp [hFailed], rfl⟩

theorem replaceUrl_keeps {url : HeapString} (h : Holding (url.block :: mine) w s) :
    BridgeKeeps build args (fun r t => Holding (r.block :: mine) w t ∧
      (t.failed = false → s.failed = false) ∧ Addressed w.env t.failed url.text r.text)
      (replaceUrl url) s := by
  refine keeps_perform_bind trivial trivial ?_
  rintro base t ⟨hBase, rfl⟩
  rw [h.env] at hBase
  cases base with
  | none =>
    refine ⟨trivial, h, id, true, ?_, fun _ => rfl⟩
    rw [← hBase]
    rfl
  | some base =>
    obtain ⟨base, hNul⟩ := base
    have hStays : rewriteGatewayUrl (fun _ => true) (some base) url.text = url.text →
        Addressed w.env t.failed url.text url.text := by
      intro hText
      refine ⟨true, ?_, fun _ => rfl⟩
      rw [← hBase]
      exact hText.symm
    dsimp only
    by_cases hOrigin : base = [] ∨ ¬origin <+: url.text
    · rw [if_pos hOrigin]
      exact ⟨trivial, h, id, hStays (if_pos hOrigin)⟩
    rw [if_neg hOrigin]
    by_cases hPath : url.text.drop origin.length ≠ [] ∧ peek (url.text.drop origin.length) ≠ 0x2f
    · rw [if_pos hPath]
      refine ⟨trivial, h, id, hStays ?_⟩
      simp only [rewriteGatewayUrl, if_neg hOrigin, if_pos hPath]
    rw [if_neg hPath]
    by_cases hLoopback : ¬loopbackAddress <+: base ∧ ¬loopbackName <+: base
    · rw [if_pos hLoopback]
      refine ⟨trivial, h, id, hStays ?_⟩
      simp only [rewriteGatewayUrl, if_neg hOrigin, if_neg hPath, if_pos hLoopback]
    rw [if_neg hLoopback]
    by_cases hLong : (base.rdropWhile (· = 0x2f)).length >
        sizeMax - (url.text.drop origin.length).length - 1
    · rw [if_pos hLong]
      refine ⟨trivial, h, id, hStays ?_⟩
      simp only [rewriteGatewayUrl, if_neg hOrigin, if_neg hPath, if_neg hLoopback, if_pos hLong]
    rw [if_neg hLong]
    have hText : ∀ allocated, rewriteGatewayUrl (fun _ => allocated) (some base) url.text =
        if allocated then base.rdropWhile (· = 0x2f) ++ url.text.drop origin.length
        else url.text := by
      intro allocated
      simp only [rewriteGatewayUrl, if_neg hOrigin, if_neg hPath, if_neg hLoopback, if_neg hLong]
    refine keeps_perform_bind trivial trivial ?_
    intro r u hCall
    obtain ⟨hHolding, hFailed⟩ := h.malloc hCall
    cases r with
    | none =>
      refine ⟨trivial, hHolding, by simp [hFailed], false, ?_, by simp [hFailed]⟩
      rw [← hBase]
      exact (hText false).symm
    | some block =>
      have hSwapped : Holding (url.block :: block :: mine) w u :=
        ⟨hHolding.blocks.perm (.swap ..), hHolding.env, hHolding.transfers, hHolding.headers,
          hHolding.roots, hHolding.performed⟩
      refine keeps_perform_bind trivial (hSwapped.held List.mem_cons_self) ?_
      rintro _ _ rfl
      refine ⟨trivial, hSwapped.free, by simp [hFailed], true, ?_, fun _ => rfl⟩
      rw [← hBase]
      exact (hText true).symm

theorem copyUrl_keeps (h : Holding mine w s) (bytes : List UInt8) :
    BridgeKeeps build args (fun r t => Holding (blocksOf r ++ mine) w t ∧
      (t.failed = false → s.failed = false) ∧ CopiedUrl w.env t.failed bytes r)
      (copyUrl bytes) s := by
  apply keeps_bind
  refine keeps_mono (copyString_keeps h bytes maxUrlBytes) ?_
  rintro (_ | url) t _ ⟨hHolding, hFailed, hCopy⟩
  · exact ⟨trivial, hHolding, hFailed, hCopy⟩
  · obtain rfl : url.text = bytes := hCopy
    apply keeps_bind
    refine keeps_mono (replaceUrl_keeps hHolding) ?_
    rintro r u _ ⟨hHolding', hFailed', hAddressed⟩
    exact ⟨trivial, hHolding', fun h => hFailed (hFailed' h), hAddressed⟩

/-! ### Local responses -/

/-- The status of a local response, or none for -1. -/
def Served.status : Served → Option UInt16
  | .served status => some status
  | _ => none

theorem modelIdFrom_ne {length : Nat} {model : List UInt8} (h : modelIdFrom length model = true)
    (hLength : length = 0) : model ≠ [] := by
  rintro rfl
  simp [modelIdFrom, hLength] at h

theorem serveLocalModelCatalog_keeps (method url : List UInt8) (sink : ByteSink) (bufs : Buffers) :
    BridgeKeeps build args (fun r t => t = s ∧
      (r = (.declined, sink, bufs) ∧ ¬CatalogAsked s.env method url ∨
        r.1 ≠ .declined ∧ ∃ response, localResponse s.env method url = some response ∧
          (r.1.status, r.2) = outcomeOf build response.exchange sink bufs))
      (serveLocalModelCatalog build.cfg build.libc method url sink bufs) s := by
  refine keeps_perform_bind trivial trivial ?_
  rintro enabled t ⟨rfl, rfl⟩
  refine keeps_perform_bind trivial trivial ?_
  rintro (model : Option Text) s ⟨hModel, rfl⟩
  by_cases hEnabled : (s.env .localModelCatalog).map Subtype.val ≠ some (ascii "1")
  · rw [if_pos hEnabled]
    exact ⟨trivial, rfl, .inl ⟨rfl, fun h => hEnabled h.1⟩⟩
  rw [if_neg hEnabled]
  by_cases hOther : method ≠ ascii "GET" ∨ ¬catalogSuffix <:+ url
  · rw [if_pos hOther]
    refine ⟨trivial, rfl, .inl ⟨rfl, fun h => ?_⟩⟩
    exact hOther.elim (fun hMethod => hMethod h.2.1) fun hUrl => hUrl h.2.2
  rw [if_neg hOther]
  rw [not_or, not_not, not_not] at hOther
  have hAsked : CatalogAsked s.env method url := ⟨not_not.mp hEnabled, hOther⟩
  cases model with
  | none => exact keeps_call trivial ⟨hAsked.1, hModel.symm⟩ (fun x => x.elim)
  | some model =>
    obtain ⟨model, hNul⟩ := model
    have hLocal : localResponse s.env method url =
        some (if isModelIdSafe model then .catalog model else .unsafeModel) := by
      rw [localResponse, if_pos hAsked, ← hModel]
      rfl
    dsimp only
    by_cases hSafe : isModelIdSafe model = true
    · rw [if_neg (by simpa using hSafe)]
      rw [if_pos hSafe] at hLocal
      have hWrites := writeCatalog_eq build (modelIdFrom_ne hSafe rfl) sink bufs
      generalize writeCatalog build.cfg build.libc model sink bufs = written at hWrites ⊢
      obtain ⟨_ | _, sink, bufs⟩ := written
      · exact ⟨trivial, rfl, .inr ⟨nofun, _, hLocal, hWrites.symm⟩⟩
      · exact ⟨trivial, rfl, .inr ⟨nofun, _, hLocal, hWrites.symm⟩⟩
    · rw [if_pos (by simpa using hSafe)]
      rw [if_neg hSafe] at hLocal
      exact ⟨trivial, rfl, .inr ⟨nofun, _, hLocal, rfl⟩⟩

theorem serveFixtureChat_keeps {method url : List UInt8} (hCatalog : ¬CatalogAsked s.env method url)
    (sink : ByteSink) (bufs : Buffers) :
    BridgeKeeps build args (fun r t => t = s ∧
      (r = (.declined, sink, bufs) ∧ localResponse s.env method url = none ∨
        r.1 ≠ .declined ∧ ∃ response, localResponse s.env method url = some response ∧
          (r.1.status, r.2) = outcomeOf build response.exchange sink bufs))
      (serveFixtureChat build.cfg build.libc method sink bufs) s := by
  refine keeps_perform_bind trivial trivial ?_
  rintro fixture t ⟨hFixture, rfl⟩
  cases fixture with
  | none =>
    refine ⟨trivial, rfl, .inl ⟨rfl, ?_⟩⟩
    rw [localResponse, if_neg hCatalog, ← hFixture]
    rfl
  | some fixture =>
    obtain ⟨fixture, hNul⟩ := fixture
    have hLocal : localResponse t.env method url =
        if fixture = [] ∨ method ≠ ascii "POST" then none
        else if fixture.length > maxFixtureBytes then some .longFixture
        else some (.fixture fixture) := by
      rw [localResponse, if_neg hCatalog, ← hFixture]
      rfl
    dsimp only
    by_cases hOther : fixture = [] ∨ method ≠ ascii "POST"
    · rw [if_pos hOther]
      exact ⟨trivial, rfl, .inl ⟨rfl, hLocal.trans (if_pos hOther)⟩⟩
    rw [if_neg hOther] at hLocal ⊢
    by_cases hLong : fixture.length > maxFixtureBytes
    · rw [if_pos hLong] at hLocal ⊢
      exact ⟨trivial, rfl, .inr ⟨nofun, _, hLocal, rfl⟩⟩
    rw [if_neg hLong] at hLocal ⊢
    have hAppends := appendFixture_eq build hNul sink bufs
    generalize appendFixture build.cfg build.libc fixture sink bufs = written at hAppends ⊢
    obtain ⟨_ | _, sink, bufs⟩ := written
    · exact ⟨trivial, rfl, .inr ⟨nofun, _, hLocal, hAppends.symm⟩⟩
    · exact ⟨trivial, rfl, .inr ⟨nofun, _, hLocal, hAppends.symm⟩⟩

/-! ### The transfer -/

/-- The host with the options of a transfer set. -/
def Host.configured (w : Host) (curl : Nat) (options : List CurlOption) : Host :=
  { w with transfers := Function.update w.transfers curl (some options) }

theorem setOptions_keeps {curl : Nat} (options before : List CurlOption) :
    BridgeKeeps build args (fun ok t => ∃ set, t = { s.configured curl set with
        failed := s.failed || !ok } ∧ (ok = true → set = before ++ options))
      (setOptions curl options) (s.configured curl before) := by
  induction options generalizing before with
  | nil => exact ⟨trivial, before, by simp [Host.configured], fun _ => (List.append_nil _).symm⟩
  | cons option options ih =>
    have hLive : (s.configured curl before).transfers curl = some before := Function.update_self ..
    refine keeps_perform_bind trivial (by rw [Proper, hLive]; nofun) ?_
    rintro (_ | _) t hCall
    · obtain rfl : t = { s.configured curl before with failed := true } := hCall
      exact ⟨trivial, before, by simp [Host.configured], nofun⟩
    · obtain rfl : t = s.configured curl (before ++ [option]) := by
        refine Eq.trans hCall ?_
        simp [Host.configured]
      refine keeps_mono (ih (before ++ [option])) ?_
      rintro ok u _ ⟨set, hSame, hSet⟩
      refine ⟨set, hSame, fun hOk => ?_⟩
      rw [hSet hOk, List.append_assoc]
      rfl

/-- An exchange with the network answers the response code when it is complete and taken whole. -/
theorem networkExchange_outcome (build : Build) (arrival : Arrival) (sink : ByteSink)
    (bufs : Buffers) (code : Option Int) :
    outcomeOf build (networkExchange arrival code) sink bufs =
      match Native.performRequest build.cfg build.libc (some 0) arrival.chunks sink bufs with
      | (none, sink, bufs) => (none, sink, bufs)
      | (some _, sink, bufs) => (if arrival.complete then statusOf code else none, sink, bufs) :=
  performRequest_status _ _ sink bufs

theorem performTransfer_keeps {curl : Nat} {options : List CurlOption} {url : List UInt8}
    (hRoots : build.streamCa = true → s.roots = true) (hOptions : s.transfers curl = some options)
    (hHeaders : s.headers = (parseHeaders build.cfg build.memory args.headers).lines)
    (hUrl : Addressed s.env s.failed args.url url) (hAsks : Asks build args s.env url options)
    (sink : ByteSink) (bufs : Buffers) :
    BridgeKeeps build args (fun outcome t => ∃ arrival code,
      t = { s with performed := s.performed ++ [⟨options, arrival⟩] } ∧
      outcome = outcomeOf build (networkExchange arrival code) sink bufs)
      (performTransfer build curl sink bufs) s := by
  refine keeps_perform_bind trivial ⟨hRoots, hHeaders, url, options, hOptions, ⟨_, hUrl⟩, hAsks⟩ ?_
  rintro (arrival : Arrival) t hCall
  obtain rfl : t = { s with performed := s.performed ++ [⟨options, arrival⟩] } := by
    refine Eq.trans hCall ?_
    rw [hOptions]
    rfl
  have hOutcome := networkExchange_outcome build arrival sink bufs
  rw [performRequest_status]
  generalize Native.performRequest build.cfg build.libc (some 0) arrival.chunks sink bufs = written
    at hOutcome ⊢
  obtain ⟨_ | _, sink, bufs⟩ := written
  · exact ⟨trivial, arrival, none, rfl, (hOutcome none).symm⟩
  cases hComplete : arrival.complete with
  | false =>
    refine ⟨trivial, arrival, none, rfl, ?_⟩
    rw [hOutcome none, hComplete]
    rfl
  | true =>
    refine keeps_perform_bind trivial (by rw [Proper, hOptions]; nofun) ?_
    rintro (_ | code) u (rfl : u = _)
    · refine ⟨trivial, arrival, none, rfl, ?_⟩
      rw [hOutcome none, hComplete]
      rfl
    · have hCode := hOutcome (some code)
      rw [hComplete] at hCode
      simp only [statusOf, Option.bind_some, if_true] at hCode
      dsimp only
      split
      · next hRange => exact ⟨trivial, arrival, some code, rfl, by rw [hCode, if_pos hRange]⟩
      · next hRange => exact ⟨trivial, arrival, some code, rfl, by rw [hCode, if_neg hRange]⟩

/-! ### The request -/

/-- A request on the way from `s` to `t`: it holds a transfer at most, and header lines. -/
structure Amid (curl : Option Nat) (lines : List (List UInt8)) (s t : Host) : Prop where
  blocks : t.blocks = s.blocks
  headers : t.headers = s.headers ++ lines
  env : t.env = s.env
  roots : t.roots = s.roots
  transfers : Holds curl.toList s.transfers t.transfers
  failed : t.failed = false → s.failed = false

theorem Amid.refl (s : Host) : Amid none [] s s :=
  ⟨rfl, (List.append_nil _).symm, rfl, rfl, .nil _, id⟩

/-- What the request comes to: an exchange, and the answer it is. -/
def Comes (build : Build) (args : Arguments) (w t : Host) (sink : ByteSink) (bufs : Buffers)
    (outcome : Outcome) : Prop :=
  ∃ exchange, outcome = outcomeOf build exchange sink bufs ∧ Answered build args w t exchange

theorem performNetwork_keeps {url : List UInt8} (hEnv : s.env = w.env)
    (hPerformed : s.performed = w.performed) (hRoots : build.streamCa = true → s.roots = true)
    (hHeaders : s.headers = (parseHeaders build.cfg build.memory args.headers).lines)
    (hUrl : Addressed w.env s.failed args.url url)
    (hRemote : localResponse w.env args.method url = none)
    (hAccepted : (parseHeaders build.cfg build.memory args.headers).accepted = true)
    (sink : ByteSink) (bufs : Buffers) :
    BridgeKeeps build args (fun r t => Amid r.1 [] s t ∧ Comes build args w t sink bufs r.2)
      (performNetwork build args args.method url
        (parseHeaders build.cfg build.memory args.headers).lines sink bufs) s := by
  refine keeps_perform_bind trivial trivial ?_
  rintro (_ | curl) t hCall
  · obtain rfl : t = { s with failed := true } := hCall
    exact ⟨trivial, ⟨rfl, (List.append_nil _).symm, rfl, rfl, .nil _, nofun⟩, refusedExchange, rfl,
      .failed rfl hPerformed⟩
  obtain ⟨hFree, rfl⟩ : s.transfers curl = none ∧ t = s.configured curl [] := hCall
  have hHolds : ∀ options, Holds [curl] s.transfers (s.configured curl options).transfers :=
    fun options => (Holds.nil s.transfers).take hFree options
  refine keeps_perform_bind trivial trivial ?_
  rintro (caBundle : Option Text) t ⟨hBundle, rfl⟩
  obtain rfl : caBundle = w.env .caBundle := by rw [hBundle, ← hEnv]; rfl
  cases hTrust : trustOptions build.streamCa ((w.env .caBundle).map Subtype.val) with
  | none =>
    exact ⟨trivial, ⟨rfl, (List.append_nil _).symm, rfl, rfl, hHolds [], id⟩, refusedExchange, rfl,
      .unsent hUrl hRemote (.inr hTrust) hPerformed⟩
  | some trust =>
    apply keeps_bind
    refine keeps_mono (setOptions_keeps _ []) ?_
    rintro ok t _ ⟨set, hSame, hSet⟩
    have hHeld : Holds [curl] s.transfers t.transfers := by rw [hSame]; exact hHolds set
    cases ok with
    | false =>
      have hFailed : t.failed = true := by rw [hSame]; simp
      refine ⟨trivial, ⟨by rw [hSame]; rfl, by rw [hSame]; exact (List.append_nil _).symm,
        by rw [hSame]; rfl, by rw [hSame]; rfl, hHeld, ?_⟩, refusedExchange, rfl, .failed hFailed (by rw [hSame]; exact hPerformed)⟩
      rw [hFailed]
      nofun
    | true =>
      obtain rfl := hSet rfl
      have hAsks : Asks build args w.env url _ := ⟨hRemote, hAccepted, trust, hTrust, rfl⟩
      have hOptions := congrArg (fun t : Host => t.transfers curl) hSame
      simp only [Host.configured, Function.update_self, List.nil_append] at hOptions
      obtain ⟨hEnv', hRoots', hPerformed', hFailed'⟩ : t.env = w.env ∧ t.roots = s.roots ∧
          t.performed = w.performed ∧ t.failed = s.failed := by
        rw [hSame]
        exact ⟨hEnv, rfl, hPerformed, by simp⟩
      have hBlocks : t.blocks = s.blocks := by rw [hSame]; rfl
      have hLines : t.headers = s.headers := by rw [hSame]; rfl
      apply keeps_bind
      refine keeps_mono (performTransfer_keeps (hRoots' ▸ hRoots) hOptions
        (hLines.trans hHeaders) (hEnv' ▸ hFailed' ▸ hUrl) (hEnv' ▸ hAsks) sink bufs) ?_
      rintro outcome u _ ⟨arrival, code, rfl, rfl⟩
      refine ⟨trivial, ⟨hBlocks, hLines.trans (List.append_nil _).symm, hEnv'.trans hEnv.symm,
        hRoots', hHeld, ?_⟩, _, rfl, .sent (hFailed' ▸ hUrl) hAsks (by rw [hPerformed'])⟩
      exact fun h => hFailed'.symm.trans h

theorem answerRequest_keeps {url : List UInt8} (hRoots : build.streamCa = true → s.roots = true)
    (hHeaders : s.headers = []) (hUrl : Addressed s.env s.failed args.url url) (sink : ByteSink)
    (bufs : Buffers) :
    BridgeKeeps build args (fun r t => Amid r.1 r.2.1 s t ∧ Comes build args s t sink bufs r.2.2)
      (answerRequest build args args.method url sink bufs) s := by
  apply keeps_bind
  refine keeps_mono (serveLocalModelCatalog_keeps args.method url sink bufs) ?_
  rintro ⟨served, sink₁, bufs₁⟩ t _ ⟨rfl, hCatalog⟩
  have hServed : ∀ {outcome : Outcome}, (∃ response,
      localResponse t.env args.method url = some response ∧
        outcome = outcomeOf build response.exchange sink bufs) →
      Amid none [] t t ∧ Comes build args t t sink bufs outcome := by
    rintro outcome ⟨response, hLocal, hOutcome⟩
    refine ⟨.refl t, response.exchange, hOutcome, ?_⟩
    cases response with
    | catalog model => exact .catalog hUrl hLocal rfl
    | fixture text => exact .fixture hUrl hLocal rfl
    | unsafeModel => exact .barred hUrl (.inl hLocal) rfl
    | longFixture => exact .barred hUrl (.inr hLocal) rfl
  rcases hCatalog with ⟨hDeclined, hCatalog⟩ | ⟨hTaken, hLocal⟩
  · obtain ⟨rfl, rfl, rfl⟩ : served = .declined ∧ sink₁ = sink ∧ bufs₁ = bufs := by
      simpa using hDeclined
    apply keeps_bind
    refine keeps_mono (serveFixtureChat_keeps hCatalog sink₁ bufs₁) ?_
    rintro ⟨served, sink₂, bufs₂⟩ t _ ⟨rfl, ⟨hDeclined, hRemote⟩ | ⟨hTaken, hLocal⟩⟩
    · obtain ⟨rfl, rfl, rfl⟩ : served = .declined ∧ sink₂ = sink₁ ∧ bufs₂ = bufs₁ := by
        simpa using hDeclined
      refine keeps_perform_bind trivial trivial ?_
      rintro _ u hAppended
      have hSame : u = { t with
          headers := t.headers ++ (parseHeaders build.cfg build.memory args.headers).lines } :=
        hAppended
      cases hAccepted : (parseHeaders build.cfg build.memory args.headers).accepted with
      | false =>
        subst hSame
        exact ⟨trivial, ⟨rfl, rfl, rfl, rfl, .nil _, id⟩, refusedExchange, rfl,
          .unsent hUrl hRemote (.inl hAccepted) rfl⟩
      | true =>
        have hNetwork : BridgeKeeps build args _ _ u :=
          performNetwork_keeps (w := t) (by rw [hSame]) (by rw [hSame]) (by rwa [hSame])
            (by rw [hSame, hHeaders, List.nil_append]) (by rwa [hSame]) hRemote hAccepted sink₂ bufs₂
        subst hSame
        apply keeps_bind
        refine keeps_mono hNetwork ?_
        rintro r v _ ⟨hAmid, hComes⟩
        refine ⟨trivial, ⟨hAmid.blocks, ?_, hAmid.env, hAmid.roots, hAmid.transfers,
          hAmid.failed⟩, hComes⟩
        exact hAmid.headers.trans (List.append_nil _)
    · cases served with
      | declined => exact absurd rfl hTaken
      | failed => exact ⟨trivial, hServed hLocal⟩
      | served status => exact ⟨trivial, hServed hLocal⟩
  · cases served with
    | declined => exact absurd rfl hTaken
    | failed => exact ⟨trivial, hServed hLocal⟩
    | served status => exact ⟨trivial, hServed hLocal⟩

/-- An answer is about the environment, and what has been performed and has failed. -/
theorem Answered.congr {w' t' : Host} {exchange : Exchange} (h : Answered build args w t exchange)
    (hEnv : w'.env = w.env) (hPerformed : w'.performed = w.performed)
    (hPerformed' : t'.performed = t.performed) (hFailed : t'.failed = t.failed) :
    Answered build args w' t' exchange := by
  obtain ⟨hBad, hSame⟩ | ⟨hFail, hSame⟩ | ⟨hUrl, hLocal, hSame⟩ | ⟨hUrl, hLocal, hSame⟩ |
    ⟨hUrl, hLocal, hSame⟩ | ⟨hUrl, hRemote, hBad, hSame⟩ | ⟨hUrl, hAsks, hSent⟩ := h
  · exact .malformed hBad (by rw [hPerformed', hPerformed, hSame])
  · exact .failed (hFailed.trans hFail) (by rw [hPerformed', hPerformed, hSame])
  · exact .catalog (by rwa [hEnv, hFailed]) (by rwa [hEnv])
      (by rw [hPerformed', hPerformed, hSame])
  · exact .fixture (by rwa [hEnv, hFailed]) (by rwa [hEnv])
      (by rw [hPerformed', hPerformed, hSame])
  · exact .barred (by rwa [hEnv, hFailed]) (by rwa [hEnv])
      (by rw [hPerformed', hPerformed, hSame])
  · exact .unsent (by rwa [hEnv, hFailed]) (by rwa [hEnv]) (by rwa [hEnv])
      (by rw [hPerformed', hPerformed, hSame])
  · exact .sent (by rwa [hEnv, hFailed]) (by rwa [hEnv]) (by rw [hPerformed', hPerformed, hSent])

theorem Comes.congr {w' t' : Host} {outcome : Outcome} (h : Comes build args w t sink bufs outcome)
    (hEnv : w'.env = w.env) (hPerformed : w'.performed = w.performed)
    (hPerformed' : t'.performed = t.performed) (hFailed : t'.failed = t.failed) :
    Comes build args w' t' sink bufs outcome := by
  obtain ⟨exchange, hOutcome, hAnswered⟩ := h
  exact ⟨exchange, hOutcome, hAnswered.congr hEnv hPerformed hPerformed' hFailed⟩

theorem attempt_keeps {method url : Option HeapString}
    (hRoots : build.streamCa = true → s.roots = true) (hHeaders : s.headers = [])
    (hMethod : Copied s.failed args.method maxMethodBytes method)
    (hUrl : CopiedUrl s.env s.failed args.url url)
    (sink : ByteSink) (bufs : Buffers) :
    BridgeKeeps build args (fun r t => Amid r.1 r.2.1 s t ∧ Comes build args s t sink bufs r.2.2)
      (attempt build args method url sink bufs) s := by
  have hRefused : (s.failed = true ∨ ¬Copyable args.method maxMethodBytes) ∨
      (s.failed = true ∨ ¬Copyable args.url maxUrlBytes) →
      Comes build args s s sink bufs (none, sink, bufs) := by
    rintro ((hFailed | hBad) | (hFailed | hBad))
    · exact ⟨refusedExchange, rfl, .failed hFailed rfl⟩
    · exact ⟨refusedExchange, rfl, .malformed (.inl hBad) rfl⟩
    · exact ⟨refusedExchange, rfl, .failed hFailed rfl⟩
    · exact ⟨refusedExchange, rfl, .malformed (.inr hBad) rfl⟩
  cases method with
  | none => exact ⟨trivial, .refl s, hRefused (.inl hMethod)⟩
  | some method =>
    obtain ⟨block, text⟩ := method
    obtain rfl : text = args.method := hMethod
    cases url with
    | none => exact ⟨trivial, .refl s, hRefused (.inr hUrl)⟩
    | some url => exact answerRequest_keeps hRoots hHeaders hUrl sink bufs

/-- A host with nothing of a request. -/
structure Clear (w : Host) : Prop where
  headers : w.headers = []
  roots : w.roots = false

/-- What a request leaves: everything that it took has been given back. -/
structure Restored (w t : Host) : Prop where
  env : t.env = w.env
  blocks : t.blocks = w.blocks
  transfers : t.transfers = w.transfers
  headers : t.headers = []
  roots : t.roots = false

theorem freeString_keeps {table : Nat → Option Nat} {string : Option HeapString}
    (h : Holds (blocksOf string ++ mine) table s.blocks) :
    BridgeKeeps build args (fun _ t => ∃ blocks, t = { s with blocks := blocks } ∧
      Holds mine table blocks) (freeString string) s := by
  cases string with
  | none => exact ⟨trivial, s.blocks, rfl, h⟩
  | some string =>
    refine keeps_call trivial (h.held _ List.mem_cons_self) ?_
    rintro _ t rfl
    exact ⟨trivial, _, rfl, h.give⟩

theorem cleanupTransfer_keeps {curl : Option Nat} {table : Nat → Option (List CurlOption)}
    (h : Holds curl.toList table s.transfers) :
    BridgeKeeps build args (fun _ t => t = { s with transfers := table })
      (cleanupTransfer curl) s := by
  cases curl with
  | none =>
    obtain rfl : s.transfers = table := h.eq
    exact ⟨trivial, rfl⟩
  | some curl =>
    refine keeps_call trivial (h.held _ List.mem_cons_self) ?_
    rintro _ t rfl
    have hAll : Function.update s.transfers curl none = table := h.give.eq
    exact ⟨trivial, by rw [hAll]⟩

/-- Every run of `perform_request` makes proper calls only, restores the host, and is the exchange
that answers the request. -/
theorem performRequest_keeps (hClear : Clear w) (sink : ByteSink) (bufs : Buffers) :
    BridgeKeeps build args (fun outcome t => Restored w t ∧ Comes build args w t sink bufs outcome)
      (performRequest build args sink bufs) w := by
  have hInit : BridgeKeeps build args (fun _ t => t = { w with roots := build.streamCa })
      (initTrust build) w := by
    unfold initTrust
    cases build.streamCa with
    | false => exact ⟨trivial, by rw [← hClear.roots]⟩
    | true =>
      refine keeps_call trivial trivial ?_
      rintro _ t rfl
      exact ⟨trivial, rfl⟩
  have hFree : ∀ t : Host, t.roots = build.streamCa →
      BridgeKeeps build args (fun _ u => u = { t with roots := false }) (freeTrust build) t := by
    intro t hRoots
    unfold freeTrust
    cases hStream : build.streamCa with
    | false => exact ⟨trivial, by rw [← hStream, ← hRoots]⟩
    | true =>
      refine keeps_call trivial (hRoots.trans hStream) ?_
      rintro _ u rfl
      exact ⟨trivial, rfl⟩
  apply keeps_bind
  refine keeps_mono hInit ?_
  rintro _ s _ hStart
  have hNothing : Holding [] s s := ⟨.nil _, rfl, rfl, rfl, rfl, rfl⟩
  apply keeps_bind
  refine keeps_mono (copyString_keeps hNothing args.method maxMethodBytes) ?_
  rintro method s₁ _ ⟨hHolding₁, hFailed₁, hMethod⟩
  apply keeps_bind
  refine keeps_mono (copyUrl_keeps hHolding₁ args.url) ?_
  rintro url s₂ _ ⟨hHolding₂, hFailed₂, hUrl⟩
  have hRoots : s₂.roots = build.streamCa := by rw [hHolding₂.roots, hStart]
  have hHeaders : s₂.headers = [] := by rw [hHolding₂.headers, hStart, hClear.headers]
  apply keeps_bind
  refine keeps_mono (attempt_keeps (fun hStream => hRoots.trans hStream) hHeaders
    (hMethod.mono hFailed₂) (hHolding₂.env ▸ hUrl) sink bufs) ?_
  rintro ⟨curl, lines, outcome⟩ s₃ _ ⟨hAmid, hComes⟩
  apply keeps_bind
  refine keeps_mono (cleanupTransfer_keeps hAmid.transfers) ?_
  rintro _ _ _ rfl
  apply keeps_bind
  refine keeps_mono (hFree _ (hAmid.roots.trans hRoots)) ?_
  rintro _ _ _ rfl
  have hLines : s₃.headers = lines := by rw [hAmid.headers, hHeaders, List.nil_append]
  refine keeps_perform_bind trivial hLines ?_
  rintro _ s₄ hCleared
  have hHolds : Holds (blocksOf method ++ (blocksOf url ++ [])) w.blocks s₄.blocks := by
    have hBlocks : s₄.blocks = s₂.blocks := by rw [hCleared]; exact hAmid.blocks
    rw [hBlocks]
    have hTaken := hHolding₂.blocks
    rw [hStart] at hTaken
    refine hTaken.perm ?_
    rw [List.append_nil, List.append_nil]
    exact List.perm_append_comm
  apply keeps_bind
  refine keeps_mono (freeString_keeps hHolds) ?_
  rintro _ _ _ ⟨blocks, rfl, hUrlOnly⟩
  apply keeps_bind
  refine keeps_mono (freeString_keeps hUrlOnly) ?_
  rintro _ _ _ ⟨blocks', rfl, hNone⟩
  obtain rfl := hNone.eq
  obtain rfl : s₄ = _ := hCleared
  have hEnv : s₂.env = w.env := by rw [hHolding₂.env, hStart]
  have hTransfers : s₂.transfers = w.transfers := by rw [hHolding₂.transfers, hStart]
  have hPerformed : s₂.performed = w.performed := by rw [hHolding₂.performed, hStart]
  exact ⟨trivial, ⟨hAmid.env.trans hEnv, rfl, hTransfers, rfl, rfl⟩,
    hComes.congr hEnv.symm hPerformed.symm rfl rfl⟩

end Esp32Fx.Native.Request
