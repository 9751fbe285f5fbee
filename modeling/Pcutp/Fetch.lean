import Pcutp.Lines
import Pcutp.Names

/-!
# The internet leg of a GET

`fetch` downloads a URL with `urllib`, `_handle_get` turns what it raises into
an ERR line, and `run_serial` decides from what still escapes whether the cable
was pulled.  Each of the three has its own list of exception classes.

The standard library is a parameter (`Web`): what `urlparse` makes of a URL,
which redirects the server answers with, and what `open` and each `read` return
or raise.  A library exception is modelled by its place in the class hierarchy,
as far as a handler of the source looks at it.
-/

namespace Pcutp

/-- The exceptions of library calls, by the handlers that tell them apart. -/
inductive LibraryError
  /-- `TimeoutError`. -/
  | timeout
  /-- `urllib.error.HTTPError`, with its status code. -/
  | httpError (code : Line)
  /-- `urllib.error.URLError`; whether its reason is a `socket.gaierror`. -/
  | urlError (gaierror : Bool)
  /-- Any other `OSError`, such as `ConnectionResetError`. -/
  | osError
  /-- `http.client.HTTPException`. -/
  | httpException
  | valueError
  deriving DecidableEq

/-- `isinstance(exc, OSError)`. -/
def LibraryError.isOSError : LibraryError → Bool
  | timeout => true
  | httpError _ => true
  | urlError _ => true
  | osError => true
  | httpException => false
  | valueError => false

/-- An exception on its way up: one of the program's own, or one of the library's. -/
inductive Exc
  | pcutp (exc : PcutpError)
  | library (exc : LibraryError)
  deriving DecidableEq

def UrlError (message : String) : PcutpError :=
  { cls := .url, message }

def DnsError (message : String) : PcutpError :=
  { cls := .dns, message }

def SizeError (message : String) : PcutpError :=
  { cls := .size, message }

def HttpError (message : String) (detail : Line) : PcutpError :=
  { cls := .http, message, detail }

/-- What the library returns for an opened URL. -/
structure Response where
  /-- `response.headers.get("Content-Length")`. -/
  content_length : Option Line
  /-- Whether the deadline has passed before the `i`-th read. -/
  expired : Nat → Bool
  /-- The `i`-th `response.read(n)`. -/
  read : Nat → Nat → Except LibraryError Bytes
  /-- Whether the deadline has passed after the last read. -/
  overdue : Bool
  geturl : Line

/-- The library as one GET meets it. -/
structure Web where
  /-- The scheme, in lower case, and the netloc; `none` where `urlparse` raises `ValueError`. -/
  urlparse : Line → Option (Line × Line)
  /-- The redirect targets that `opener.open` asks `redirect_request` about, in order. -/
  redirects : List Line
  /-- What `opener.open` does after the redirects. -/
  opened : Except LibraryError Response

section Text

/-- `c.isdigit()` on the characters of a header (ISO-8859-1): the digits and three superscripts. -/
def isDigitChar (c : Char) : Bool :=
  c.isDigit || c.toNat == 0xB2 || c.toNat == 0xB3 || c.toNat == 0xB9

/-- `text.isdigit()`. -/
def isdigit (text : Line) : Bool :=
  !text.isEmpty && text.all isDigitChar

/-- The longest digit string that `int` converts. -/
def Const.INT_MAX_STR_DIGITS : Nat := 4300

/-- `int(text)` for a text that `isdigit` accepts; `none` where it raises `ValueError`. -/
def toInt (text : Line) : Option Nat :=
  if isdecimal text = true ∧ text.length ≤ Const.INT_MAX_STR_DIGITS then some (int text) else none

end Text

section Fetch

variable (web : Web) (max_size : Nat)

/-- `validate_url(url)`. -/
def validate_url (url : Line) : Except Exc Unit :=
  match web.urlparse url with
  | none => .error (.library .valueError)
  | some (scheme, netloc) =>
      if scheme ∉ ["http".toList, "https".toList] then
        .error (.pcutp (UrlError "scheme not allowed"))
      else if netloc = [] then
        .error (.pcutp (UrlError "missing host"))
      else
        .ok ()

/-- `opener.open(request)` from the redirect targets that are left: each passes `validate_url`. -/
def openFrom : List Line → Except Exc Response
  | [] => web.opened.mapError .library
  | url :: urls =>
      match validate_url web url with
      | .error exc => .error exc
      | .ok () => openFrom urls

/-- The check of the declared length. -/
def checkDeclared (declared : Option Line) : Except Exc Unit :=
  match declared with
  | none => .ok ()
  | some text =>
      if isdigit text = false then
        .ok ()
      else
        match toInt text with
        | none => .error (.library .valueError)
        | some n =>
            if n > max_size then .error (.pcutp (SizeError "Content-Length exceeds limit"))
            else .ok ()

/-- The read loop, from its `i`-th turn on. -/
def readBody (response : Response) (i total : Nat) (chunks : Bytes) : Except Exc Bytes :=
  if total ≤ max_size then
    if response.expired i = true then
      .error (.library .timeout)
    else
      match response.read i (min 65536 (max_size + 1 - total)) with
      | .error exc => .error (.library exc)
      | .ok chunk =>
          if chunk = [] then
            .ok chunks
          else
            readBody response (i + 1) (total + chunk.length) (chunks ++ chunk)
  else
    .ok chunks
termination_by max_size + 1 - total
decreasing_by
  rename_i hchunk
  have := List.length_pos_iff.mpr hchunk
  omega

/-- The `try` block of `fetch`. -/
def download : Except Exc Bytes :=
  match openFrom web web.redirects with
  | .error exc => .error exc
  | .ok response =>
      match checkDeclared max_size response.content_length with
      | .error exc => .error exc
      | .ok () =>
          match readBody max_size response 0 0 [] with
          | .error exc => .error exc
          | .ok data => if response.overdue = true then .error (.library .timeout) else .ok data

/-- The `except` clauses of `fetch`. -/
def fetchHandler : Exc → Exc
  | .library .timeout => .pcutp (HttpError "HTTP fetch timed out" "timeout".toList)
  | .library (.httpError code) => .pcutp (HttpError "HTTP error" code)
  | .library (.urlError true) => .pcutp (DnsError "name resolution failed")
  | .library (.urlError false) => .pcutp (HttpError "URL error" [])
  | exc => exc

/-- `fetch(url, max_size)`: the data of the `Fetched` it returns. -/
def fetch (url : Line) : Except Exc Bytes :=
  match validate_url web url with
  | .error exc => .error exc
  | .ok () =>
      match (download web max_size).mapError fetchHandler with
      | .error exc => .error exc
      | .ok data =>
          if data.length > max_size then .error (.pcutp (SizeError "body exceeds limit"))
          else .ok data

end Fetch

section Handle

/-- The lines `_handle_get` sends, and how it ends: with an exception, with `None`, or in
`send_file` for a name and data. -/
structure Handled where
  sent : List Line
  outcome : Except Exc (Option (Line × Bytes))
  deriving DecidableEq

/-- `_handle_get(line)`, up to its call of `send_file`. -/
def handle_get (web : Web) (max_size : Nat) (line : Line) : Handled :=
  let parts := split line
  if parts.length ≠ 3 ∨ word parts 0 ≠ "GET".toList then
    let exc := ProtocolError "expected GET"
    { sent := [exc.wire], outcome := .error (.pcutp exc) }
  else
    match sanitize_filename (word parts 1) with
    | .error exc => { sent := [exc.wire], outcome := .ok none }
    | .ok filename =>
        match fetch web max_size (word parts 2) with
        | .ok data => { sent := ["FETCHING".toList], outcome := .ok (some (filename, data)) }
        | .error (.pcutp exc) => { sent := ["FETCHING".toList, exc.wire], outcome := .ok none }
        | .error (.library exc) =>
            { sent := ["FETCHING".toList], outcome := .error (.library exc) }

/-- What `run_serial` does next. -/
inductive Daemon
  /-- `serve_once` goes on with the session. -/
  | serving
  /-- The cable is taken for unplugged. -/
  | unplugged
  /-- The link is taken for lost. -/
  | linkLost
  | transferFailed
  /-- The exception leaves the daemon. -/
  | died
  deriving DecidableEq

/-- The `except` clauses of `run_serial`; `serve_once` passes every exception on. -/
def run_serial {α : Type} : Except Exc α → Daemon
  | .ok _ => .serving
  | .error (.library exc) => if exc.isOSError = true then .unplugged else .died
  | .error (.pcutp exc) =>
      if exc.cls = .linkLost ∨ exc.cls = .timeout then .linkLost else .transferFailed

end Handle

section Failures

/-- The exceptions that `fetch` and `_handle_get` turn into errors of their own. -/
def LibraryError.handled : LibraryError → Bool
  | timeout => true
  | httpError _ => true
  | urlError _ => true
  | osError => false
  | httpException => false
  | valueError => false

/-- A URL that `urlparse` takes apart and whose scheme and host are allowed. -/
def Web.Allows (web : Web) (url : Line) : Prop :=
  ∃ scheme netloc, web.urlparse url = some (scheme, netloc) ∧
    scheme ∈ ["http".toList, "https".toList] ∧ netloc ≠ []

/-- A read that the loop reaches from its `i`-th turn on raises the exception. -/
inductive Response.ReadRaises (response : Response) (max_size : Nat) :
    Nat → Nat → LibraryError → Prop
  | here {i total : Nat} {exc : LibraryError} :
      total ≤ max_size → response.expired i = false →
      response.read i (min 65536 (max_size + 1 - total)) = .error exc →
      ReadRaises response max_size i total exc
  | later {i total : Nat} {chunk : Bytes} {exc : LibraryError} :
      total ≤ max_size → response.expired i = false →
      response.read i (min 65536 (max_size + 1 - total)) = .ok chunk → chunk ≠ [] →
      ReadRaises response max_size (i + 1) (total + chunk.length) exc →
      ReadRaises response max_size i total exc

/-- A Content-Length that `isdigit` accepts and `int` refuses. -/
def BadDeclared (declared : Option Line) : Prop :=
  ∃ text, declared = some text ∧ isdigit text = true ∧ toInt text = none

/-- A Content-Length that the size check lets pass. -/
def FitsDeclared (max_size : Nat) (declared : Option Line) : Prop :=
  ∀ text, declared = some text → isdigit text = true → ∃ n ≤ max_size, toInt text = some n

/-- A library call that a GET of the URL makes raises the exception. -/
inductive Web.Raises (web : Web) (max_size : Nat) (url : Line) : LibraryError → Prop
  /-- `urlparse` raises on the URL. -/
  | parse : web.urlparse url = none → Raises web max_size url .valueError
  /-- `urlparse` raises on a redirect target. -/
  | redirect (before after : List Line) (target : Line) :
      web.Allows url → web.redirects = before ++ target :: after →
      (∀ hop ∈ before, web.Allows hop) → web.urlparse target = none →
      Raises web max_size url .valueError
  /-- `opener.open` raises. -/
  | opener (exc : LibraryError) :
      web.Allows url → (∀ hop ∈ web.redirects, web.Allows hop) → web.opened = .error exc →
      Raises web max_size url exc
  /-- `int` raises on the declared length. -/
  | declared (response : Response) :
      web.Allows url → (∀ hop ∈ web.redirects, web.Allows hop) → web.opened = .ok response →
      BadDeclared response.content_length → Raises web max_size url .valueError
  /-- `response.read` raises. -/
  | body (response : Response) (exc : LibraryError) :
      web.Allows url → (∀ hop ∈ web.redirects, web.Allows hop) → web.opened = .ok response →
      FitsDeclared max_size response.content_length →
      response.ReadRaises max_size 0 0 exc → Raises web max_size url exc

variable {web : Web} {max_size : Nat} {url : Line} {exc : LibraryError}

theorem validate_ok_iff :
    validate_url web url = .ok () ↔ web.Allows url := by
  unfold validate_url Web.Allows
  cases hparse : web.urlparse url with
  | none =>
      simp
  | some p =>
      obtain ⟨scheme, netloc⟩ := p
      simp only [Option.some.injEq, Prod.mk.injEq]
      constructor
      · intro h
        split_ifs at h with hscheme hnetloc
        exact ⟨scheme, netloc, ⟨rfl, rfl⟩, hscheme, hnetloc⟩
      · rintro ⟨_, _, ⟨rfl, rfl⟩, hscheme, hnetloc⟩
        rw [if_neg (not_not.mpr hscheme), if_neg hnetloc]

theorem validate_library_iff :
    validate_url web url = .error (.library exc) ↔
      web.urlparse url = none ∧ exc = .valueError := by
  unfold validate_url
  cases hparse : web.urlparse url with
  | none =>
      simp [eq_comm]
  | some p =>
      simp only [reduceCtorEq, false_and, iff_false]
      split_ifs <;> simp

theorem openFrom_ok_iff
    {urls : List Line} {response : Response} :
    openFrom web urls = .ok response ↔
      (∀ hop ∈ urls, web.Allows hop) ∧ web.opened = .ok response := by
  induction urls with
  | nil =>
      cases hopened : web.opened <;> simp [openFrom, hopened, Except.mapError]
  | cons target urls ih =>
      rw [openFrom, List.forall_mem_cons, ← validate_ok_iff]
      cases hvalid : validate_url web target with
      | error _ => simp
      | ok _ => simp [ih]

theorem openFrom_library_iff
    {urls : List Line} :
    openFrom web urls = .error (.library exc) ↔
      (∃ before target after, urls = before ++ target :: after ∧
        (∀ hop ∈ before, web.Allows hop) ∧ web.urlparse target = none ∧ exc = .valueError) ∨
      ((∀ hop ∈ urls, web.Allows hop) ∧ web.opened = .error exc) := by
  induction urls with
  | nil =>
      cases hopened : web.opened <;> simp [openFrom, hopened, Except.mapError]
  | cons target urls ih =>
      rw [openFrom, List.forall_mem_cons, ← validate_ok_iff]
      cases hvalid : validate_url web target with
      | error e =>
          have hnot : ¬ web.Allows target := by
            rw [← validate_ok_iff, hvalid]
            simp
          simp only [Except.error.injEq, reduceCtorEq, false_and, or_false]
          rw [← Except.error.injEq (ε := Exc) (α := Unit), ← hvalid, validate_library_iff]
          constructor
          · rintro ⟨hnone, rfl⟩
            exact ⟨[], target, urls, rfl, by simp, hnone, rfl⟩
          · rintro ⟨before, target', after, heq, hbefore, hnone, rfl⟩
            cases before with
            | nil =>
                cases heq
                exact ⟨hnone, rfl⟩
            | cons hop before =>
                cases heq
                exact absurd (hbefore _ List.mem_cons_self) hnot
      | ok _ =>
          have hallows : web.Allows target := validate_ok_iff.mp hvalid
          simp only [ih, true_and]
          refine or_congr_left ⟨?_, ?_⟩
          · rintro ⟨before, target', after, rfl, hbefore, hnone, rfl⟩
            exact ⟨target :: before, target', after, rfl,
              List.forall_mem_cons.mpr ⟨hallows, hbefore⟩, hnone, rfl⟩
          · rintro ⟨before, target', after, heq, hbefore, hnone, rfl⟩
            cases before with
            | nil =>
                cases heq
                obtain ⟨_, _, hparse, _⟩ := hallows
                rw [hparse] at hnone
                cases hnone
            | cons hop before =>
                cases heq
                exact ⟨before, target', after, rfl, (List.forall_mem_cons.mp hbefore).2, hnone,
                  rfl⟩

theorem checkDeclared_library_iff
    {declared : Option Line} :
    checkDeclared max_size declared = .error (.library exc) ↔
      BadDeclared declared ∧ exc = .valueError := by
  cases declared with
  | none =>
      simp [checkDeclared, BadDeclared]
  | some text =>
      simp only [checkDeclared, BadDeclared, Option.some.injEq, exists_eq_left']
      cases hdigit : isdigit text with
      | false => simp
      | true =>
          cases hint : toInt text with
          | none => simp [eq_comm]
          | some n =>
              simp only [Bool.true_eq_false, if_false, reduceCtorEq, and_false, false_and,
                iff_false]
              split_ifs <;> simp

theorem checkDeclared_ok_iff
    {declared : Option Line} :
    checkDeclared max_size declared = .ok () ↔ FitsDeclared max_size declared := by
  cases declared with
  | none =>
      simp [checkDeclared, FitsDeclared]
  | some text =>
      simp only [checkDeclared, FitsDeclared, Option.some.injEq, forall_eq']
      cases hdigit : isdigit text with
      | false => simp
      | true =>
          cases hint : toInt text with
          | none => simp
          | some n =>
              simp only [Bool.true_eq_false, if_false, Option.some.injEq, true_implies,
                exists_eq_right']
              split_ifs with hle <;> simp <;> omega

theorem readBody_library_iff
    {response : Response} (hexc : exc ≠ .timeout) (i total : Nat) (chunks : Bytes) :
    readBody max_size response i total chunks = .error (.library exc) ↔
      response.ReadRaises max_size i total exc := by
  fun_induction readBody max_size response i total chunks with
  | case1 i total chunks hle hexpired =>
      constructor
      · intro h
        cases h
        exact absurd rfl hexc
      · intro h
        cases h <;> simp_all
  | case2 i total chunks hle hexpired e hread =>
      constructor
      · intro h
        cases h
        exact .here hle (by simpa using hexpired) hread
      · intro h
        cases h <;> simp_all
  | case3 i total chunks hle hexpired hread =>
      constructor
      · nofun
      · intro h
        cases h <;> simp_all
  | case4 i total chunks hle hexpired chunk hread hchunk ih =>
      rw [ih]
      constructor
      · exact fun h => .later hle (by simpa using hexpired) hread hchunk h
      · intro h
        cases h <;> simp_all
  | case5 i total chunks hle =>
      constructor
      · nofun
      · intro h
        cases h <;> contradiction

/-- The `try` block raises an unhandled exception exactly when one of its calls does. -/
theorem download_library_iff
    (hallows : web.Allows url) (hexc : exc.handled = false) :
    download web max_size = .error (.library exc) ↔ web.Raises max_size url exc := by
  have htimeout : exc ≠ .timeout := by
    rintro rfl
    cases hexc
  constructor
  · intro h
    unfold download at h
    split at h
    · rename_i e hopen
      cases h
      rcases openFrom_library_iff.mp hopen with ⟨before, target, after, heq, hbefore, hnone, rfl⟩ |
        ⟨hhops, hopened⟩
      · exact .redirect before after target hallows heq hbefore hnone
      · exact .opener _ hallows hhops hopened
    · rename_i response hopen
      obtain ⟨hhops, hopened⟩ := openFrom_ok_iff.mp hopen
      split at h
      · rename_i e hdeclared
        cases h
        obtain ⟨hbad, rfl⟩ := checkDeclared_library_iff.mp hdeclared
        exact .declared response hallows hhops hopened hbad
      · rename_i hdeclared
        split at h
        · rename_i e hbody
          cases h
          exact .body response _ hallows hhops hopened (checkDeclared_ok_iff.mp hdeclared)
            ((readBody_library_iff htimeout 0 0 []).mp hbody)
        · split_ifs at h
          cases h
          exact absurd rfl htimeout
  · intro h
    unfold download
    cases h with
    | parse hnone =>
        obtain ⟨_, _, hparse, _⟩ := hallows
        rw [hparse] at hnone
        cases hnone
    | redirect before after target _ heq hbefore hnone =>
        rw [openFrom_library_iff.mpr (Or.inl ⟨before, target, after, heq, hbefore, hnone, rfl⟩)]
    | opener _ _ hhops hopened =>
        rw [openFrom_library_iff.mpr (Or.inr ⟨hhops, hopened⟩)]
    | declared response _ hhops hopened hbad =>
        rw [openFrom_ok_iff.mpr ⟨hhops, hopened⟩]
        simp only [checkDeclared_library_iff.mpr ⟨hbad, rfl⟩]
    | body response _ _ hhops hopened hfits hread =>
        rw [openFrom_ok_iff.mpr ⟨hhops, hopened⟩]
        simp only [checkDeclared_ok_iff.mpr hfits, (readBody_library_iff htimeout 0 0 []).mpr hread]

theorem fetchHandler_library_iff
    {e : Exc} :
    fetchHandler e = .library exc ↔ e = .library exc ∧ exc.handled = false := by
  constructor
  · intro h
    cases e with
    | pcutp e => cases h
    | library e =>
        cases e with
        | urlError gaierror => cases gaierror <;> cases h
        | osError => cases h; exact ⟨rfl, rfl⟩
        | httpException => cases h; exact ⟨rfl, rfl⟩
        | valueError => cases h; exact ⟨rfl, rfl⟩
        | _ => cases h
  · rintro ⟨rfl, hexc⟩
    cases exc <;> first | rfl | cases hexc

/-- What escapes `fetch` besides its own errors. -/
theorem fetch_library_iff :
    fetch web max_size url = .error (.library exc) ↔
      exc.handled = false ∧ web.Raises max_size url exc := by
  unfold fetch
  cases hvalid : validate_url web url with
  | error e =>
      have hnot : ¬ web.Allows url := by
        rw [← validate_ok_iff, hvalid]
        simp
      simp only [Except.error.injEq]
      rw [← Except.error.injEq (ε := Exc) (α := Unit), ← hvalid, validate_library_iff]
      constructor
      · rintro ⟨hnone, rfl⟩
        exact ⟨rfl, .parse hnone⟩
      · rintro ⟨_, hraises⟩
        cases hraises with
        | parse hnone => exact ⟨hnone, rfl⟩
        | _ => contradiction
  | ok _ =>
      have hallows : web.Allows url := validate_ok_iff.mp hvalid
      have hdownload :
          (download web max_size).mapError fetchHandler = .error (.library exc) ↔
            exc.handled = false ∧ web.Raises max_size url exc := by
        rw [and_congr_right fun hexc => (download_library_iff hallows hexc).symm]
        cases download web max_size with
        | error e => simp [Except.mapError, fetchHandler_library_iff, and_comm]
        | ok data => simp [Except.mapError]
      rw [← hdownload]
      dsimp only
      cases (download web max_size).mapError fetchHandler with
      | error e => simp
      | ok data =>
          dsimp only
          split_ifs <;> simp

/-- No exception but its own leaves `fetch` exactly when no library call raises one without a
handler. -/
theorem refused_iff :
    (∀ exc, fetch web max_size url = .error exc → ∃ e, exc = .pcutp e) ↔
      ∀ exc, web.Raises max_size url exc → exc.handled = true := by
  constructor
  · intro h exc hraises
    by_contra hexc
    obtain ⟨e, he⟩ := h _ (fetch_library_iff.mpr ⟨Bool.eq_false_iff.mpr hexc, hraises⟩)
    cases he
  · intro h exc hexc
    cases exc with
    | pcutp e => exact ⟨e, rfl⟩
    | library e =>
        obtain ⟨hunhandled, hraises⟩ := fetch_library_iff.mp hexc
        rw [h e hraises] at hunhandled
        cases hunhandled

end Failures

section Result

/-- An ERR line, as the client recognises it. -/
def isErr (line : Line) : Bool :=
  (split line).take 1 == ["ERR".toList]

/-- A leg that did not fail, or one that ended in one ERR line, with the session going on. -/
def Handled.Contained (h : Handled) : Prop :=
  (∃ filename data, h.outcome = .ok (some (filename, data))) ∨
    (h.outcome = .ok none ∧ (h.sent.filter isErr).length = 1 ∧ run_serial h.outcome = .serving)

theorem isErr_wire (exc : PcutpError) :
    isErr exc.wire = true := by
  have hword : IsWord "ERR".toList := isWord_of_check (by decide)
  have hsplit : ∀ rest, split ("ERR".toList ++ ' ' :: rest) = "ERR".toList :: split rest :=
    Words.words_cons (by decide) hword
  have hwire : exc.wire = "ERR".toList ++ ' ' ::
      (exc.code ++ if exc.detail = [] then [] else ' ' :: exc.detail) := by
    simp [PcutpError.wire]
  rw [isErr, hwire, hsplit]
  rfl

/-- HTTP failures stay in the session exactly when every library call of the leg raises only
what `fetch` has a handler for. -/
theorem http_failure_contained_iff
    (web : Web) (max_size : Nat) (name url line : Line)
    (hline : split line = ["GET".toList, name, url]) :
    ((∀ exc, fetch web max_size url = .error exc → ∃ e, exc = .pcutp e) ↔
      ∀ exc, web.Raises max_size url exc → exc.handled = true) ∧
    ((handle_get web max_size line).Contained ↔
      ∀ filename, sanitize_filename name = .ok filename →
        ∀ exc, web.Raises max_size url exc → exc.handled = true) := by
  refine ⟨refused_iff, ?_⟩
  have hparts : ¬ ((split line).length ≠ 3 ∨ word (split line) 0 ≠ "GET".toList) := by
    simp [hline]
  have hname : word (split line) 1 = name := by
    rw [hline]
    rfl
  have hurl : word (split line) 2 = url := by
    rw [hline]
    rfl
  have hone : ∀ e : PcutpError, (["FETCHING".toList, e.wire].filter isErr).length = 1 := by
    intro e
    rw [List.filter_cons_of_neg (by decide), List.filter_cons_of_pos (isErr_wire e)]
    rfl
  simp only [handle_get, if_neg hparts, hname, hurl]
  cases hsanitize : sanitize_filename name with
  | error exc =>
      simp [Handled.Contained, isErr_wire, run_serial]
  | ok filename =>
      simp only [Except.ok.injEq, forall_eq', ← refused_iff]
      cases hresult : fetch web max_size url with
      | ok data =>
          simp [Handled.Contained]
      | error exc =>
          cases exc with
          | pcutp e => exact iff_of_true (Or.inr ⟨rfl, hone e, rfl⟩) (by simp)
          | library e => simp [Handled.Contained]

/-- A library that refuses one URL, and resets the connection for the others. -/
def hostileWeb : Web where
  urlparse := fun url =>
    if url = "http://[".toList then none else some ("http".toList, "host".toList)
  redirects := []
  opened := .error .osError

/-- An unbalanced bracket ends the daemon, and a reset connection is taken for a pulled cable. -/
theorem http_failure_escapes :
    handle_get hostileWeb Const.MAX_FILE_SIZE "GET A http://[".toList =
      { sent := ["FETCHING".toList], outcome := .error (.library .valueError) } ∧
    run_serial (handle_get hostileWeb Const.MAX_FILE_SIZE "GET A http://[".toList).outcome =
      .died ∧
    handle_get hostileWeb Const.MAX_FILE_SIZE "GET A http://host/".toList =
      { sent := ["FETCHING".toList], outcome := .error (.library .osError) } ∧
    run_serial (handle_get hostileWeb Const.MAX_FILE_SIZE "GET A http://host/".toList).outcome =
      .unplugged := by
  decide +kernel

/-- A library that times out. -/
def silentWeb : Web where
  urlparse := fun _ => some ("http".toList, "host".toList)
  redirects := []
  opened := .error .timeout

/-- A timeout is reported and the session goes on. -/
theorem http_failure_contained_timeout :
    (handle_get silentWeb Const.MAX_FILE_SIZE "GET A http://host/".toList).Contained := by
  have hline : split "GET A http://host/".toList =
      ["GET".toList, "A".toList, "http://host/".toList] := by
    decide +kernel
  refine (http_failure_contained_iff silentWeb Const.MAX_FILE_SIZE _ _ _ hline).2.mpr ?_
  intro _ _ exc hraises
  cases hraises with
  | opener _ _ _ hopened =>
      cases hopened
      rfl
  | declared response _ _ hopened => cases hopened
  | body response _ _ _ hopened => cases hopened
  | parse hnone => cases hnone
  | redirect before after target _ heq hbefore hnone => cases hnone

end Result

end Pcutp
