import Esp32Fx.Lib.Loop
import Esp32Fx.Native.GatewayUrl
import Esp32Fx.Native.Headers
import Esp32Fx.Native.Streams

/-! `perform_request` of `runtime/fx_wamr_native.c`, as a program over what it asks of libc and of
libcurl.  The sink is handed on from call to call.  What libcurl receives it gives to `write_body`
chunk by chunk, and it fails at the first chunk that is not taken whole.

The host is what the calls work on: the environment, the blocks of `malloc`, the transfers and header
lines that libcurl holds, the trust roots, and the transfers that have been performed. -/

namespace Esp32Fx.Native.Request

open Lib Program

/-! ### Calls -/

/-- The variables of the environment that `perform_request` reads. -/
inductive Variable
  /-- `FX_WAMR_GATEWAY_BASE_URL`. -/
  | gatewayBaseUrl
  /-- `FX_WAMR_LOCAL_MODEL_CATALOG`. -/
  | localModelCatalog
  /-- `FX_MODEL`. -/
  | model
  /-- `FX_WAMR_FIXTURE_TEXT`. -/
  | fixtureText
  /-- `FX_WAMR_CA_BUNDLE`. -/
  | caBundle
  deriving DecidableEq, Repr

/-- A string of C: its bytes before the NUL. -/
abbrev Text := { text : List UInt8 // (0 : UInt8) ∉ text }

/-- The options of a transfer. -/
inductive CurlOption
  | url (url : List UInt8)
  | customRequest (method : List UInt8)
  | httpHeader (lines : List (List UInt8))
  | writeFunction
  | writeData
  | errorBuffer
  | bufferSize (bytes : Nat)
  | uploadBufferSize (bytes : Nat)
  /-- `CURL_IPRESOLVE_V4`. -/
  | ipResolveV4
  /-- `CURL_HTTP_VERSION_1_1`. -/
  | httpVersion11
  | connectTimeout (seconds : Nat)
  | timeout (seconds : Nat)
  | noSignal (value : Nat)
  | sslVerifyPeer (value : Nat)
  | sslVerifyHost (value : Nat)
  | acceptEncoding (encodings : List UInt8)
  | protocols (protocols : List UInt8)
  | postFields (body : List UInt8)
  | postFieldSize (bytes : Nat)
  | caInfo (path : Option (List UInt8))
  | caPath (path : Option (List UInt8))
  /-- `CURLOPT_SSL_CTX_FUNCTION`, which is `load_trust_roots`. -/
  | sslCtxFunction
  /-- `CURLOPT_SSL_CTX_DATA`: the path of `struct request_trust`. -/
  | sslCtxData (path : List UInt8)
  deriving DecidableEq, Repr

/-- What arrives in `curl_easy_perform`, and whether the transfer is complete. -/
structure Arrival where
  chunks : List Chunk
  complete : Bool

inductive Call
  | malloc (size : Nat)
  | free (block : Nat)
  | getenv (name : Variable)
  | initRoots
  | freeRoots
  /-- The calls of `curl_slist_append` in `parse_headers`. -/
  | appendHeaders (lines : List (List UInt8))
  /-- `curl_slist_free_all` of a list with these lines; null when there are none. -/
  | freeHeaders (lines : List (List UInt8))
  | initCurl
  | setOption (curl : Nat) (option : CurlOption)
  | transfer (curl : Nat)
  | responseCode (curl : Nat)
  | cleanup (curl : Nat)
  /-- A string is read through a null pointer. -/
  | nullString

def Call.Answer : Call → Type
  | .malloc _ => Option Nat
  | .getenv _ => Option Text
  | .initCurl => Option Nat
  | .setOption _ _ => Bool
  | .transfer _ => Arrival
  | .responseCode _ => Option Int
  | .free _ | .initRoots | .freeRoots | .appendHeaders _ | .freeHeaders _ | .cleanup _ => Unit
  | .nullString => Empty

abbrev Bridge := Program Call Call.Answer

def malloc (size : Nat) : Bridge (Option Nat) := Program.perform (Call.malloc size)

def free (block : Nat) : Bridge Unit := Program.perform (Call.free block)

def getenv (name : Variable) : Bridge (Option Text) := Program.perform (Call.getenv name)

def initRoots : Bridge Unit := Program.perform Call.initRoots

def freeRoots : Bridge Unit := Program.perform Call.freeRoots

def appendHeaders (lines : List (List UInt8)) : Bridge Unit :=
  Program.perform (Call.appendHeaders lines)

def freeHeaders (lines : List (List UInt8)) : Bridge Unit :=
  Program.perform (Call.freeHeaders lines)

def initCurl : Bridge (Option Nat) := Program.perform Call.initCurl

def setOption (curl : Nat) (option : CurlOption) : Bridge Bool :=
  Program.perform (Call.setOption curl option)

def transfer (curl : Nat) : Bridge Arrival := Program.perform (Call.transfer curl)

def responseCode (curl : Nat) : Bridge (Option Int) := Program.perform (Call.responseCode curl)

def cleanup (curl : Nat) : Bridge Unit := Program.perform (Call.cleanup curl)

def nullString {α : Type} : Bridge α := .call .nullString Empty.elim

/-! ### Strings -/

/-- A string that `malloc` holds. -/
structure HeapString where
  block : Nat
  text : List UInt8
  deriving DecidableEq, Repr

/-- `FX_WAMR_MAX_METHOD_BYTES`. -/
def maxMethodBytes : Nat := 16

/-- `FX_WAMR_MAX_URL_BYTES`. -/
def maxUrlBytes : Nat := 8192

/-- `FX_WAMR_MAX_FIXTURE_BYTES`. -/
def maxFixtureBytes : Nat := 8192

/-- `FX_WAMR_CURL_IO_BYTES`. -/
def curlIoBytes : Nat := 16 * 1024

def copyString (bytes : List UInt8) (limit : Nat) : Bridge (Option HeapString) := do
  if bytes.length = 0 ∨ bytes.length > limit ∨ 0 ∈ bytes then return none
  match ← malloc (bytes.length + 1) with
  | none => return none
  | some block => return some ⟨block, bytes⟩

/-- `rewrite_gateway_url`, with the string that it frees and the one that it allocates. -/
def replaceUrl (url : HeapString) : Bridge HeapString := do
  match ← getenv .gatewayBaseUrl with
  | none => return url
  | some ⟨base, _⟩ =>
    let suffix := url.text.drop origin.length
    if base = [] ∨ ¬origin <+: url.text then return url
    if suffix ≠ [] ∧ peek suffix ≠ 0x2f then return url
    if ¬loopbackAddress <+: base ∧ ¬loopbackName <+: base then return url
    let base := base.rdropWhile (· = 0x2f)
    if base.length > sizeMax - suffix.length - 1 then return url
    match ← malloc (base.length + suffix.length + 1) with
    | none => return url
    | some rewritten =>
      free url.block
      return ⟨rewritten, base ++ suffix⟩

/-! ### Local responses -/

/-- What a local response answers: 0, -1, or 1 with the status. -/
inductive Served
  | declined
  | failed
  | served (status : UInt16)
  deriving DecidableEq, Repr

def isModelIdByte (ch : UInt8) : Bool :=
  (0x61 ≤ ch && ch ≤ 0x7a) || (0x41 ≤ ch && ch ≤ 0x5a) || (0x30 ≤ ch && ch ≤ 0x39) ||
    ch = 0x2d || ch = 0x5f || ch = 0x2e || ch = 0x2f || ch = 0x3a

/-- The loop of `is_model_id_safe`, with the `length` so far. -/
def modelIdFrom (length : Nat) : List UInt8 → Bool
  | [] => 0 < length
  | ch :: p =>
    if !isModelIdByte ch then false
    else if length + 1 > 256 then false
    else modelIdFrom (length + 1) p

def isModelIdSafe (model : List UInt8) : Bool := modelIdFrom 0 model

def catalogSuffix : List UInt8 := ascii "/coding-agent/v1/models"

def catalogPrefix : List UInt8 := ascii "\x7b\"object\":\"list\",\"data\":[\x7b\"id\":\""

def catalogTail : List UInt8 := ascii "\",\"type\":\"language\",\"tags\":[]\x7d]\x7d"

section

variable (cfg : Config) (libc : Nat → Bool)

/-- The writes of `serve_local_model_catalog`. -/
def writeCatalog (model : List UInt8) (sink : ByteSink) (bufs : Buffers) :
    Bool × ByteSink × Buffers :=
  match writeBody cfg libc (.ofBytes catalogPrefix) sink bufs with
  | (0, sink, bufs) => (false, sink, bufs)
  | (_ + 1, sink, bufs) =>
    match writeBody cfg libc (.ofBytes model) sink bufs with
    | (0, sink, bufs) => (false, sink, bufs)
    | (_ + 1, sink, bufs) =>
      match writeBody cfg libc (.ofBytes catalogTail) sink bufs with
      | (0, sink, bufs) => (false, sink, bufs)
      | (_ + 1, sink, bufs) => (true, sink, bufs)

def serveLocalModelCatalog (method url : List UInt8) (sink : ByteSink) (bufs : Buffers) :
    Bridge (Served × ByteSink × Buffers) := do
  let enabled ← getenv .localModelCatalog
  let model ← getenv .model
  if enabled.map Subtype.val ≠ some (ascii "1") then return (.declined, sink, bufs)
  if method ≠ ascii "GET" ∨ ¬catalogSuffix <:+ url then return (.declined, sink, bufs)
  match model with
  | none => nullString
  | some ⟨model, _⟩ =>
    if !isModelIdSafe model then return (.failed, sink, bufs)
    match writeCatalog cfg libc model sink bufs with
    | (false, sink, bufs) => return (.failed, sink, bufs)
    | (true, sink, bufs) => return (.served 200, sink, bufs)

def fixturePrefix : List UInt8 := ascii "data: \x7b\"type\":\"text-delta\",\"delta\":"

def fixtureSuffix : List UInt8 :=
  ascii "\x7d\n\ndata: \x7b\"type\":\"finish\",\"finishReason\":\x7b" ++
  ascii "\"unified\":\"stop\",\"raw\":\"stop\"\x7d,\"usage\":\x7b" ++
  ascii "\"inputTokens\":\x7b\"total\":1\x7d,\"outputTokens\":\x7b" ++
  ascii "\"total\":1\x7d\x7d\x7d\n\ndata: [DONE]\n\n"

/-- The appends of `serve_fixture_chat`. -/
def appendFixture (fixture : List UInt8) (sink : ByteSink) (bufs : Buffers) :
    Bool × ByteSink × Buffers :=
  match sinkAppend cfg libc fixturePrefix sink bufs with
  | (false, sink, bufs) => (false, sink, bufs)
  | (true, sink, bufs) =>
    match sinkAppendJsonString cfg libc fixture sink bufs with
    | (false, sink, bufs) => (false, sink, bufs)
    | (true, sink, bufs) => sinkAppend cfg libc fixtureSuffix sink bufs

def serveFixtureChat (method : List UInt8) (sink : ByteSink) (bufs : Buffers) :
    Bridge (Served × ByteSink × Buffers) := do
  match ← getenv .fixtureText with
  | none => return (.declined, sink, bufs)
  | some ⟨fixture, _⟩ =>
    if fixture = [] ∨ method ≠ ascii "POST" then return (.declined, sink, bufs)
    if fixture.length > maxFixtureBytes then return (.failed, sink, bufs)
    match appendFixture cfg libc fixture sink bufs with
    | (false, sink, bufs) => return (.failed, sink, bufs)
    | (true, sink, bufs) => return (.served 200, sink, bufs)

end

/-! ### The transfer -/

/-- The path that the trust roots of a streaming build are read from when none is set. -/
def defaultCaBundle : List UInt8 := ascii "/etc/ssl/certs/ca-certificates.crt"

/-- The options for the trust roots; none when the path is not absolute.  `streamCa` is whether
`FX_WAMR_MBEDTLS_STREAM_CA` is defined. -/
def trustOptions (streamCa : Bool) (caBundle : Option (List UInt8)) : Option (List CurlOption) :=
  if streamCa then
    let path := caBundle.getD defaultCaBundle
    if peek path ≠ 0x2f then none
    else some [.caInfo none, .caPath none, .sslCtxFunction, .sslCtxData path]
  else
    match caBundle with
    | none => some []
    | some path => if peek path ≠ 0x2f then none else some [.caInfo (some path)]

def requestOptions (method url : List UInt8) (headers : List (List UInt8)) : List CurlOption :=
  [.url url, .customRequest method, .httpHeader headers, .writeFunction, .writeData, .errorBuffer,
    .bufferSize curlIoBytes, .uploadBufferSize curlIoBytes, .ipResolveV4, .httpVersion11,
    .connectTimeout 15, .timeout 180, .noSignal 1, .sslVerifyPeer 1, .sslVerifyHost 2,
    .acceptEncoding [], .protocols (ascii "http,https")]

def bodyOptions (body : List UInt8) : List CurlOption :=
  if body.length > 0 then [.postFields body, .postFieldSize body.length] else []

/-- The options in order, up to the first that is refused. -/
def setOptions (curl : Nat) (options : List CurlOption) : Bridge Bool :=
  allOf (options.map (setOption curl))

/-- The arguments of `perform_request`. -/
structure Arguments where
  method : List UInt8
  url : List UInt8
  headers : List UInt8
  body : List UInt8

/-- What `perform_request` ends with: the status or none for -1, the sink, and the buffers. -/
abbrev Outcome := Option UInt16 × ByteSink × Buffers

/-- The constants of the build, the calls of `realloc` that succeed, the allocations of
`parse_headers` that succeed, and whether `FX_WAMR_MBEDTLS_STREAM_CA` is defined. -/
structure Build where
  cfg : Config
  libc : Nat → Bool
  memory : List UInt8 → Bool
  streamCa : Bool

variable (build : Build) (args : Arguments)

/-- From `curl_easy_perform` on. -/
def performTransfer (curl : Nat) (sink : ByteSink) (bufs : Buffers) : Bridge Outcome := do
  let arrival ← transfer curl
  match performRequest build.cfg build.libc (if arrival.complete then some 0 else none)
    arrival.chunks sink bufs with
  | (none, sink, bufs) => return (none, sink, bufs)
  | (some _, sink, bufs) =>
    match ← responseCode curl with
    | none => return (none, sink, bufs)
    | some code =>
      if code < 0 ∨ code > 65535 then return (none, sink, bufs)
      else return (some (UInt16.ofNat code.toNat), sink, bufs)

/-- From `curl_easy_init` on: also the transfer to clean up. -/
def performNetwork (method url : List UInt8) (headers : List (List UInt8)) (sink : ByteSink)
    (bufs : Buffers) : Bridge (Option Nat × Outcome) := do
  match ← initCurl with
  | none => return (none, none, sink, bufs)
  | some curl =>
    let caBundle ← getenv .caBundle
    match trustOptions build.streamCa (caBundle.map Subtype.val) with
    | none => return (some curl, none, sink, bufs)
    | some trust =>
      if !(← setOptions curl (trust ++ requestOptions method url headers ++ bodyOptions args.body))
      then return (some curl, none, sink, bufs)
      return (some curl, ← performTransfer build curl sink bufs)

/-- The transfer to clean up, the header lines to free, and the outcome. -/
abbrev Attempt := Option Nat × List (List UInt8) × Outcome

/-- From the local responses on. -/
def answerRequest (method url : List UInt8) (sink : ByteSink) (bufs : Buffers) :
    Bridge Attempt := do
  match ← serveLocalModelCatalog build.cfg build.libc method url sink bufs with
  | (.failed, sink, bufs) => return (none, [], none, sink, bufs)
  | (.served status, sink, bufs) => return (none, [], some status, sink, bufs)
  | (.declined, sink, bufs) =>
    match ← serveFixtureChat build.cfg build.libc method sink bufs with
    | (.failed, sink, bufs) => return (none, [], none, sink, bufs)
    | (.served status, sink, bufs) => return (none, [], some status, sink, bufs)
    | (.declined, sink, bufs) =>
      let headers := parseHeaders build.cfg build.memory args.headers
      appendHeaders headers.lines
      if !headers.accepted then return (none, headers.lines, none, sink, bufs)
      let (curl, outcome) ← performNetwork build args method url headers.lines sink bufs
      return (curl, headers.lines, outcome)

/-- `copy_string` and `rewrite_gateway_url` for the URL. -/
def copyUrl (bytes : List UInt8) : Bridge (Option HeapString) := do
  match ← copyString bytes maxUrlBytes with
  | none => return none
  | some url => return some (← replaceUrl url)

/-- What is done for a request that could be copied. -/
def attempt (method url : Option HeapString) (sink : ByteSink) (bufs : Buffers) : Bridge Attempt :=
  match method, url with
  | some method, some url => answerRequest build args method.text url.text sink bufs
  | _, _ => pure (none, [], none, sink, bufs)

/-- `mbedtls_x509_crt_init` in a streaming build. -/
def initTrust : Bridge Unit := if build.streamCa then initRoots else pure ()

/-- `mbedtls_x509_crt_free` in a streaming build. -/
def freeTrust : Bridge Unit := if build.streamCa then freeRoots else pure ()

/-- `curl_easy_cleanup` of a transfer that was made. -/
def cleanupTransfer : Option Nat → Bridge Unit
  | none => pure ()
  | some curl => cleanup curl

/-- `free` of a string that may be null. -/
def freeString : Option HeapString → Bridge Unit
  | none => pure ()
  | some s => free s.block

/-- `perform_request`. -/
def performRequest (sink : ByteSink) (bufs : Buffers) : Bridge Outcome := do
  initTrust build
  let method ← copyString args.method maxMethodBytes
  let url ← copyUrl args.url
  let (curl, headers, outcome) ← attempt build args method url sink bufs
  cleanupTransfer curl
  freeTrust build
  freeHeaders headers
  freeString method
  freeString url
  return outcome

/-! ### The host -/

/-- A transfer that was performed: its options in the order they were set, and what arrived. -/
structure Performed where
  options : List CurlOption
  arrival : Arrival

structure Host where
  env : Variable → Option Text
  /-- The sizes of the blocks of `malloc`. -/
  blocks : Nat → Option Nat
  /-- The options of the transfers that have been made. -/
  transfers : Nat → Option (List CurlOption)
  headers : List (List UInt8)
  roots : Bool
  performed : List Performed
  /-- A call before the transfer has failed. -/
  failed : Bool

/-- What the calls can answer. -/
def host : Environment Call Call.Answer Host := fun w c x t =>
  match c, x with
  | .malloc _, none => t = { w with failed := true }
  | .malloc size, some block =>
    w.blocks block = none ∧ t = { w with blocks := Function.update w.blocks block (some size) }
  | .free block, _ => t = { w with blocks := Function.update w.blocks block none }
  | .getenv name, x => x = w.env name ∧ t = w
  | .initRoots, _ => t = { w with roots := true }
  | .freeRoots, _ => t = { w with roots := false }
  | .appendHeaders lines, _ => t = { w with headers := w.headers ++ lines }
  | .freeHeaders _, _ => t = { w with headers := [] }
  | .initCurl, none => t = { w with failed := true }
  | .initCurl, some curl =>
    w.transfers curl = none ∧ t = { w with transfers := Function.update w.transfers curl (some []) }
  | .setOption _ _, false => t = { w with failed := true }
  | .setOption curl option, true =>
    t = { w with
      transfers := Function.update w.transfers curl ((w.transfers curl).map (· ++ [option])) }
  | .transfer curl, arrival =>
    t = { w with performed := w.performed ++ [⟨(w.transfers curl).getD [], arrival⟩] }
  | .responseCode _, _ => t = w
  | .cleanup curl, _ => t = { w with transfers := Function.update w.transfers curl none }
  | .nullString, x => x.elim

end Esp32Fx.Native.Request
