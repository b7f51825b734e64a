import Mathlib.Data.List.DropRight
import Esp32Fx.Lib.CString

/-! `rewrite_gateway_url` of `fx_wamr_native.c`, and the host that its result names.  A string is
the list of its bytes before the NUL.  `allocates` tells for each size whether an allocation of that
size succeeds. -/

namespace Esp32Fx.Native

open Lib

abbrev sizeMax : Nat := 2 ^ 32 - 1

def origin : List UInt8 := ascii "https://ai-gateway.vercel.sh"

def loopbackAddress : List UInt8 := ascii "http://127.0.0.1:"

def loopbackName : List UInt8 := ascii "http://localhost:"

/-- `rewrite_gateway_url`, with the value of `FX_WAMR_GATEWAY_BASE_URL` if it is set. -/
def rewriteGatewayUrl (allocates : Nat → Bool) (base : Option (List UInt8)) (url : List UInt8) :
    List UInt8 :=
  match base with
  | none => url
  | some base =>
    let suffix := url.drop origin.length
    if base = [] ∨ ¬origin <+: url then url
    else if suffix ≠ [] ∧ peek suffix ≠ 0x2f then url
    else if ¬loopbackAddress <+: base ∧ ¬loopbackName <+: base then url
    else
      let base := base.rdropWhile (· = 0x2f)
      if base.length > sizeMax - suffix.length - 1 then url
      else if allocates (base.length + suffix.length + 1) then base ++ suffix
      else url

/-! ### URLs -/

/-- A byte that ends the authority of a URL: a slash, a question mark or a number sign. -/
def isDelimiter (byte : UInt8) : Bool := byte = 0x2f || byte = 0x3f || byte = 0x23

/-- The authority at the beginning of what follows `://`. -/
def authority (rest : List UInt8) : List UInt8 := rest.takeWhile fun byte => !isDelimiter byte

/-- A colon and a port, or nothing. -/
structure IsPort (port : List UInt8) : Prop where
  colon : port = [] ∨ peek port = 0x3a
  plain : 0x40 ∉ port

structure IsHost (host : List UInt8) : Prop where
  noUser : 0x40 ∉ host
  noPort : 0x3a ∉ host

/-- An authority is a host, behind a user and `@` or not, and before a port or not. -/
def HostOf (authority host : List UInt8) : Prop :=
  IsHost host ∧ ∃ port, IsPort port ∧ (authority = host ++ port ∨
    ∃ user, 0x40 ∉ user ∧ authority = user ++ 0x40 :: (host ++ port))

/-- The host of a URL. -/
def HasHost (url host : List UInt8) : Prop :=
  ∃ scheme rest, 0x3a ∉ scheme ∧ url = scheme ++ (ascii "://" ++ rest) ∧
    HostOf (authority rest) host

def IsLoopback (host : List UInt8) : Prop := host = ascii "127.0.0.1" ∨ host = ascii "localhost"

/-- What may become of a URL: it stays, or it goes to a loopback host with all that followed the
origin. -/
def StaysLocal (url rewritten : List UInt8) : Prop :=
  rewritten = url ∨ (∃ host, IsLoopback host ∧ HasHost rewritten host) ∧
    ∃ suffix, url = origin ++ suffix ∧ suffix <:+ rewritten

/-! A URL has one host at most. -/

theorem takeWhile_before {α : Type} {p : α → Bool} {rest : List α}
    (h : ∀ x, rest.head? = some x → p x = false) (l : List α) :
    (l ++ rest).takeWhile p = l.takeWhile p := by
  have hRest : rest.takeWhile p = [] := by
    cases rest with
    | nil => rfl
    | cons x rest => exact List.takeWhile_cons_of_neg (by rw [h x rfl]; decide)
  rw [List.takeWhile_append]
  split
  · next hAll => rw [hRest, List.append_nil, (List.takeWhile_prefix p).eq_of_length hAll]
  · rfl

theorem takeWhile_until {α : Type} [DecidableEq α] {stop : α} {l rest : List α} (h : stop ∉ l)
    (hRest : ∀ x, rest.head? = some x → x = stop) : (l ++ rest).takeWhile (· ≠ stop) = l := by
  have hAll : ∀ x ∈ l, decide (x ≠ stop) = true :=
    fun x hx => decide_eq_true fun hStop => h (hStop ▸ hx)
  rw [takeWhile_before, List.takeWhile_eq_self_iff.mpr hAll]
  intro x hx
  exact decide_eq_false fun hNe => hNe (hRest x hx)

theorem IsPort.head {port : List UInt8} (h : IsPort port) :
    ∀ byte, port.head? = some byte → byte = 0x3a := by
  intro byte hByte
  cases port with
  | nil => cases hByte
  | cons first port =>
    obtain rfl := Option.some.inj hByte
    simpa using h.colon

theorem host_unique {host host' port port' : List UInt8} (hHost : IsHost host)
    (hHost' : IsHost host') (hPort : IsPort port) (hPort' : IsPort port')
    (h : host ++ port = host' ++ port') : host = host' := by
  rw [← takeWhile_until hHost.noPort hPort.head, h, takeWhile_until hHost'.noPort hPort'.head]

theorem HostOf.unique {authority host host' : List UInt8} (h : HostOf authority host)
    (h' : HostOf authority host') : host = host' := by
  obtain ⟨hHost, port, hPort, hPlain⟩ := h
  obtain ⟨hHost', port', hPort', hPlain'⟩ := h'
  have hNone {host port : List UInt8} (hHost : IsHost host) (hPort : IsPort port) :
      0x40 ∉ host ++ port := by
    rw [List.mem_append, not_or]
    exact ⟨hHost.noUser, hPort.plain⟩
  rcases hPlain with rfl | ⟨user, hUser, rfl⟩
  · rcases hPlain' with hSame | ⟨user', hUser', hSame⟩
    · exact host_unique hHost hHost' hPort hPort' hSame
    · exact absurd (hSame ▸ by simp) (hNone hHost hPort)
  · rcases hPlain' with hSame | ⟨user', hUser', hSame⟩
    · exact absurd (hSame ▸ by simp) (hNone hHost' hPort')
    · obtain ⟨-, -, hSame⟩ :=
        (List.append_cons_inj_of_notMem hUser' (hNone hHost' hPort')).mp hSame.symm
      exact host_unique hHost hHost' hPort hPort' hSame.symm

/-! ### Slashes -/

theorem rdropWhile_behind {α : Type} {p : α → Bool} {l : List α}
    (h : ∀ x, l.getLast? = some x → p x = false) (rest : List α) :
    (l ++ rest).rdropWhile p = l ++ rest.rdropWhile p := by
  induction rest using List.reverseRecOn with
  | nil =>
    rw [List.append_nil, List.rdropWhile_nil, List.append_nil, List.rdropWhile_eq_self_iff]
    intro hl
    rw [h _ (List.getLast?_eq_some_getLast hl)]
    decide
  | append_singleton rest x ih =>
    rw [← List.append_assoc, List.rdropWhile_concat, List.rdropWhile_concat, ih, List.append_assoc]
    split
    · rfl
    · rfl

/-- The slashes at the end of a base URL, and the path behind it, are not part of the authority. -/
theorem authority_trimmed {suffix : List UInt8} (h : suffix = [] ∨ peek suffix = 0x2f)
    (rest : List UInt8) : authority (rest.rdropWhile (· = 0x2f) ++ suffix) = authority rest := by
  have hSlash : (!isDelimiter 0x2f) = false := by decide
  have hSuffix : ∀ byte, suffix.head? = some byte → (!isDelimiter byte) = false := by
    intro byte hByte
    cases suffix with
    | nil => cases hByte
    | cons first suffix =>
      obtain rfl := Option.some.inj hByte
      rw [show first = 0x2f by simpa using h]
      exact hSlash
  have hTrimmed : ∀ byte, (rest.rtakeWhile (· = 0x2f)).head? = some byte →
      (!isDelimiter byte) = false := by
    intro byte hByte
    have hMem := List.mem_rtakeWhile_imp (List.mem_of_mem_head? hByte)
    rw [of_decide_eq_true hMem]
    exact hSlash
  rw [authority, takeWhile_before hSuffix]
  conv => rhs; rw [← List.rdropWhile_append_rtakeWhile (p := (· = 0x2f)) (l := rest)]
  exact (takeWhile_before hTrimmed _).symm

/-! ### The base -/

/-- When a URL is rewritten. -/
structure Rewrites (allocates : Nat → Bool) (base url : List UInt8) : Prop where
  gateway : origin <+: url
  boundary : url.drop origin.length = [] ∨ peek (url.drop origin.length) = 0x2f
  admitted : loopbackAddress <+: base ∨ loopbackName <+: base
  fits : (base.rdropWhile (· = 0x2f)).length ≤ sizeMax - (url.drop origin.length).length - 1
  memory : allocates ((base.rdropWhile (· = 0x2f)).length + (url.drop origin.length).length + 1)

/-- What the base says of its host: it names no user, or the host behind the user is a loopback
host. -/
def NamesLoopback (base : List UInt8) : Prop :=
  0x40 ∉ authority (base.drop 7) ∨ ∃ user host port, 0x40 ∉ user ∧ IsLoopback host ∧ IsPort port ∧
    authority (base.drop 7) = user ++ 0x40 :: (host ++ port)

section Rewritten

variable {allocates : Nat → Bool} {base url : List UInt8}

theorem rewriteGatewayUrl_rewrites (h : Rewrites allocates base url) :
    rewriteGatewayUrl allocates (some base) url =
      base.rdropWhile (· = 0x2f) ++ url.drop origin.length := by
  have hBase : base ≠ [] := by
    rintro rfl
    rcases h.admitted with hEmpty | hEmpty <;> exact absurd hEmpty (by decide)
  have hBoundary : ¬(url.drop origin.length ≠ [] ∧ peek (url.drop origin.length) ≠ 0x2f) := by
    rintro ⟨hSuffix, hSlash⟩
    exact h.boundary.elim hSuffix hSlash
  have hAdmitted : ¬(¬loopbackAddress <+: base ∧ ¬loopbackName <+: base) := by
    rintro ⟨hAddress, hName⟩
    exact h.admitted.elim hAddress hName
  have hFits := h.fits
  rw [rewriteGatewayUrl]
  dsimp only
  rw [if_neg (by simp [hBase, h.gateway]), if_neg hBoundary, if_neg hAdmitted,
    if_neg (by omega), if_pos h.memory]

theorem rewriteGatewayUrl_stays (h : ¬Rewrites allocates base url) :
    rewriteGatewayUrl allocates (some base) url = url := by
  rw [rewriteGatewayUrl]
  dsimp only
  split
  · rfl
  · next hGateway =>
    rw [not_or, Decidable.not_not] at hGateway
    split
    · rfl
    · next hBoundary =>
      split
      · rfl
      · next hAdmitted =>
        split
        · rfl
        · next hFits =>
          split
          · next hMemory =>
            refine absurd ⟨hGateway.2, ?_, ?_, by omega, hMemory⟩ h
            · by_contra hNeither
              rw [not_or] at hNeither
              exact hBoundary hNeither
            · by_contra hNeither
              rw [not_or] at hNeither
              exact hAdmitted hNeither
          · rfl

/-- An admitted base goes on behind a loopback host and a colon. -/
theorem Rewrites.base_eq (h : Rewrites allocates base url) :
    ∃ host port, IsLoopback host ∧ base = ascii "http" ++ (ascii "://" ++ (host ++ 0x3a :: port)) := by
  rcases h.admitted with ⟨port, rfl⟩ | ⟨port, rfl⟩
  · refine ⟨ascii "127.0.0.1", port, .inl rfl, ?_⟩
    have hWord : loopbackAddress =
        ascii "http" ++ ascii "://" ++ ascii "127.0.0.1" ++ [0x3a] := by decide
    rw [← List.append_assoc, ← List.append_assoc, List.append_cons, hWord]
  · refine ⟨ascii "localhost", port, .inr rfl, ?_⟩
    have hWord : loopbackName =
        ascii "http" ++ ascii "://" ++ ascii "localhost" ++ [0x3a] := by decide
    rw [← List.append_assoc, ← List.append_assoc, List.append_cons, hWord]

theorem isHost_loopback {host : List UInt8} (h : IsLoopback host) : IsHost host := by
  rcases h with rfl | rfl
  · exact ⟨by decide, by decide⟩
  · exact ⟨by decide, by decide⟩

theorem authority_loopback {host : List UInt8} (h : IsLoopback host) (port : List UInt8) :
    authority (host ++ 0x3a :: port) = host ++ 0x3a :: authority port := by
  have hAll : ∀ byte ∈ host, (!isDelimiter byte) = true := by
    rcases h with rfl | rfl <;> exact List.all_eq_true.mp (by decide)
  rw [authority, List.takeWhile_append_of_pos hAll, List.takeWhile_cons_of_pos (by decide)]
  rfl

/-- The rewritten URL has the authority of its base, which goes on behind a loopback host and a
colon. -/
theorem Rewrites.parts (h : Rewrites allocates base url) :
    ∃ rest host port, IsLoopback host ∧
      base.rdropWhile (· = 0x2f) ++ url.drop origin.length =
        ascii "http" ++ (ascii "://" ++ rest) ∧
      authority rest = host ++ 0x3a :: port ∧ authority (base.drop 7) = host ++ 0x3a :: port := by
  obtain ⟨host, port, hLoopback, hBase⟩ := h.base_eq
  have hDrop : base.drop 7 = host ++ 0x3a :: port := by
    rw [hBase, ← List.append_assoc]
    exact List.drop_left' (by decide)
  have hLast : ∀ byte, (ascii "http" ++ (ascii "://" ++ (host ++ [0x3a]))).getLast? = some byte →
      decide (byte = 0x2f) = false := by
    intro byte hByte
    rw [← List.append_assoc, ← List.append_assoc, List.getLast?_concat] at hByte
    obtain rfl := Option.some.inj hByte
    decide
  have hTrimmed : base.rdropWhile (· = 0x2f) =
      ascii "http" ++ (ascii "://" ++ (host ++ 0x3a :: port.rdropWhile (· = 0x2f))) := by
    have hBehind := rdropWhile_behind hLast port
    simp only [List.append_assoc, List.singleton_append] at hBehind
    rw [hBase, hBehind]
  refine ⟨host ++ 0x3a :: (port.rdropWhile (· = 0x2f) ++ url.drop origin.length), host,
    authority port, hLoopback, ?_, ?_, ?_⟩
  · rw [hTrimmed, List.append_assoc, List.append_assoc, List.append_assoc, List.cons_append]
  · rw [authority_loopback hLoopback, authority_trimmed h.boundary]
  · rw [hDrop, authority_loopback hLoopback]

theorem Rewrites.ne_url (h : Rewrites allocates base url) :
    base.rdropWhile (· = 0x2f) ++ url.drop origin.length ≠ url := by
  obtain ⟨rest, -, -, -, hUrl, -⟩ := h.parts
  intro hSame
  obtain ⟨suffix, hGateway⟩ := h.gateway
  have hBoth : ascii "http" ++ (ascii "://" ++ rest) = origin ++ suffix := by
    rw [hGateway, ← hUrl, hSame]
  have hColon := congrArg (fun text => text[4]?) hBoth
  exact absurd hColon (by simp [ascii, origin])

theorem Rewrites.hasHost_iff (h : Rewrites allocates base url) (host : List UInt8) :
    HasHost (base.rdropWhile (· = 0x2f) ++ url.drop origin.length) host ↔
      HostOf (authority (base.drop 7)) host := by
  obtain ⟨rest, loopback, port, -, hUrl, hRest, hBase⟩ := h.parts
  rw [hUrl, hBase, ← hRest]
  have hHttp : (0x3a : UInt8) ∉ ascii "http" := by decide
  constructor
  · rintro ⟨scheme, rest', hScheme, hParts, hHost⟩
    have hColon (rest : List UInt8) :
        ∀ byte, (ascii "://" ++ rest).head? = some byte → byte = 0x3a :=
      fun byte hByte => (Option.some.inj hByte).symm
    have hSame : ascii "http" = scheme := by
      rw [← takeWhile_until hHttp (hColon rest), hParts, takeWhile_until hScheme (hColon rest')]
    rw [← hSame] at hParts
    rw [List.append_cancel_left (List.append_cancel_left hParts)]
    exact hHost
  · exact fun hHost => ⟨_, rest, hHttp, rfl, hHost⟩

/-- A base without a user names the loopback host that it begins with. -/
theorem Rewrites.hostOf_plain (h : Rewrites allocates base url)
    (hPlain : 0x40 ∉ authority (base.drop 7)) :
    ∃ host, IsLoopback host ∧ HostOf (authority (base.drop 7)) host := by
  obtain ⟨-, host, port, hLoopback, -, -, hBase⟩ := h.parts
  rw [hBase, List.mem_append, not_or] at hPlain
  refine ⟨host, hLoopback, isHost_loopback hLoopback, 0x3a :: port, ⟨.inr rfl, hPlain.2⟩, .inl hBase⟩

end Rewritten

/-- With a base that is admitted the host is a loopback host unless the base names a user: what is
before the `@` is not the host then. -/
theorem rewriteGatewayUrl_local_iff (allocates : Nat → Bool) (base : Option (List UInt8))
    (url : List UInt8) :
    StaysLocal url (rewriteGatewayUrl allocates base url) ↔
      ∀ text, base = some text → Rewrites allocates text url → NamesLoopback text := by
  cases base with
  | none => exact ⟨fun _ _ hText => absurd hText (by simp), fun _ => .inl rfl⟩
  | some base =>
    by_cases hRewrites : Rewrites allocates base url
    · rw [rewriteGatewayUrl_rewrites hRewrites]
      constructor
      · rintro (hSame | ⟨⟨host, hLoopback, hHost⟩, -⟩) text hText -
        · exact absurd hSame hRewrites.ne_url
        · obtain rfl := Option.some.inj hText
          obtain ⟨-, port, hPort, hPlain | ⟨user, hUser, hNamed⟩⟩ :=
            (hRewrites.hasHost_iff host).mp hHost
          · refine .inl ?_
            rw [hPlain, List.mem_append, not_or]
            exact ⟨(isHost_loopback hLoopback).noUser, hPort.plain⟩
          · exact .inr ⟨user, host, port, hUser, hLoopback, hPort, hNamed⟩
      · intro hNames
        have hUrl : url = origin ++ url.drop origin.length :=
          List.prefix_iff_eq_append.mp hRewrites.gateway |>.symm
        refine .inr ⟨?_, _, hUrl, List.suffix_append ..⟩
        rcases hNames base rfl hRewrites with
          hPlain | ⟨user, host, port, hUser, hLoopback, hPort, hNamed⟩
        · obtain ⟨host, hLoopback, hHost⟩ := hRewrites.hostOf_plain hPlain
          exact ⟨host, hLoopback, (hRewrites.hasHost_iff host).mpr hHost⟩
        · refine ⟨host, hLoopback, (hRewrites.hasHost_iff host).mpr ?_⟩
          exact ⟨isHost_loopback hLoopback, port, hPort, .inr ⟨user, hUser, hNamed⟩⟩
    · rw [rewriteGatewayUrl_stays hRewrites]
      refine ⟨fun _ text hText hOther => ?_, fun _ => .inl rfl⟩
      obtain rfl := Option.some.inj hText
      exact absurd hOther hRewrites

/-- The request goes to `evil.example`, with `127.0.0.1:x` for a user. -/
theorem rewriteGatewayUrl_remote :
    ¬∀ (allocates : Nat → Bool) (base : Option (List UInt8)) (url : List UInt8),
      StaysLocal url (rewriteGatewayUrl allocates base url) := by
  intro h
  have hRewrites : Rewrites (fun _ => true) (ascii "http://127.0.0.1:x@evil.example")
      (ascii "https://ai-gateway.vercel.sh/v1") :=
    ⟨by decide, by decide, by decide, by decide, rfl⟩
  have hEvil : HostOf (authority ((ascii "http://127.0.0.1:x@evil.example").drop 7))
      (ascii "evil.example") := by
    refine ⟨⟨by decide, by decide⟩, [], ⟨.inl rfl, List.not_mem_nil⟩, .inr ?_⟩
    exact ⟨ascii "127.0.0.1:x", by decide, by decide⟩
  have hLocal := h (fun _ => true) (some (ascii "http://127.0.0.1:x@evil.example"))
    (ascii "https://ai-gateway.vercel.sh/v1")
  rw [rewriteGatewayUrl_rewrites hRewrites] at hLocal
  rcases hLocal with hSame | ⟨⟨host, hLoopback, hHost⟩, -⟩
  · exact hRewrites.ne_url hSame
  · have hSame := ((hRewrites.hasHost_iff host).mp hHost).unique hEvil
    rw [hSame] at hLoopback
    rcases hLoopback with hName | hName <;> exact absurd hName (by decide)

end Esp32Fx.Native
