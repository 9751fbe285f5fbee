import Pcutp.Fetch

/-!
# A fetched body is complete or refused

The read loop of `fetch` against a connection that hands out a body in pieces of
any size and may be closed early (`Response.Delivers`).

`fetch` compares the declared length with the size limit and never with what
arrived.  So it keeps its promise (`Web.Whole`) exactly when the declaration is
true of what arrives (`Web.Truthful`) and the library raises nothing that `fetch`
has no handler for.
-/

namespace Pcutp

section Defs

/-- What the read loop asks for when it has so many bytes. -/
def ask (max_size total : Nat) : Nat :=
  min 65536 (max_size + 1 - total)

namespace Response

/-- The read loop comes to its `i`-th turn with so many bytes. -/
inductive Turn (response : Response) (max_size : Nat) : Nat → Nat → Prop
  | start : Turn response max_size 0 0
  | next {i total : Nat} {chunk : Bytes} :
      Turn response max_size i total → total ≤ max_size → response.expired i = false →
      response.read i (ask max_size total) = .ok chunk → chunk ≠ [] →
      Turn response max_size (i + 1) (total + chunk.length)

/-- The reads of the loop hand out this body: at most as many bytes as asked for, the next ones,
and none at its end only. -/
def Delivers (response : Response) (max_size : Nat) (body : Bytes) : Prop :=
  ∀ i total, response.Turn max_size i total → total ≤ max_size → response.expired i = false →
    ∃ chunk, response.read i (ask max_size total) = .ok chunk ∧
      chunk.length ≤ ask max_size total ∧ chunk <+: body.drop total ∧
      (chunk = [] → body.length ≤ total)

/-- The deadline passes while `fetch` reads. -/
def Late (response : Response) (max_size : Nat) : Prop :=
  response.overdue = true ∨
    ∃ i total, response.Turn max_size i total ∧ total ≤ max_size ∧ response.expired i = true

end Response

namespace Web

/-- `opener.open` returns a response. -/
def Opens (web : Web) (url : Line) (response : Response) : Prop :=
  web.Allows url ∧ (∀ hop ∈ web.redirects, web.Allows hop) ∧ web.opened = .ok response

/-- `fetch` returns the whole body, or raises an error of its own. -/
structure Whole (web : Web) (max_size : Nat) (url : Line) (body : Bytes) : Prop where
  complete : ∀ data, fetch web max_size url = .ok data →
    data = body ∧ data.length ≤ max_size ∧
      ∀ response text, web.Opens url response → response.content_length = some text →
        isdecimal text = true → data.length = int text
  oversize : ∀ response, web.Opens url response → max_size < body.length →
    response.Late max_size ∨
      ∃ exc, fetch web max_size url = .error (.pcutp exc) ∧ exc.cls = .size
  capped : ∀ response, web.Opens url response →
    ∀ i total, response.Turn max_size i total → total ≤ max_size + 1
  refused : ∀ exc, fetch web max_size url = .error exc → ∃ e, exc = .pcutp e

/-- A declared length that the size check lets pass is the length of what arrives in time. -/
def Truthful (web : Web) (max_size : Nat) (url : Line) (body : Bytes) : Prop :=
  ∀ response text, web.Opens url response → response.content_length = some text →
    isdecimal text = true → int text ≤ max_size → body.length ≤ max_size →
    ¬ response.Late max_size → body.length = int text

end Web

end Defs

section Loop

variable {response : Response} {max_size : Nat} {body : Bytes}

/-- The bytes that a turn of the loop starts with are the ones that the body starts with. -/
theorem Response.Delivers.total_le
    (h : response.Delivers max_size body) {i total : Nat} (hturn : response.Turn max_size i total) :
    total ≤ max_size + 1 ∧ total ≤ body.length := by
  induction hturn with
  | start => exact ⟨Nat.zero_le _, Nat.zero_le _⟩
  | next hprev hle hexpired hread _ ih =>
      obtain ⟨chunk, hchunk, hlength, hnext, _⟩ := h _ _ hprev hle hexpired
      cases hread.symm.trans hchunk
      have hdrop := hnext.length_le
      rw [List.length_drop] at hdrop
      rw [ask] at hlength
      omega

/-- The loop goes from turn to turn. -/
theorem readBody_turn
    {i total : Nat} (hturn : response.Turn max_size i total) :
    ∃ chunks, chunks.length = total ∧
      readBody max_size response 0 0 [] = readBody max_size response i total chunks := by
  induction hturn with
  | start => exact ⟨[], rfl, rfl⟩
  | @next i total chunk _ hle hexpired hread hchunk ih =>
      obtain ⟨chunks, hlength, ih⟩ := ih
      refine ⟨chunks ++ chunk, by rw [List.length_append, hlength], ih.trans ?_⟩
      rw [ask] at hread
      rw [readBody, if_pos hle, if_neg (by simp [hexpired])]
      simp only [hread, if_neg hchunk]

/-- A deadline that passes before a turn ends the loop. -/
theorem readBody_expired
    {i total : Nat} (hturn : response.Turn max_size i total) (hle : total ≤ max_size)
    (hexpired : response.expired i = true) :
    readBody max_size response 0 0 [] = .error (.library .timeout) := by
  obtain ⟨chunks, _, heq⟩ := readBody_turn hturn
  rw [heq, readBody, if_pos hle, if_pos hexpired]

/-- From a turn on, the loop reads the body up to one byte over the limit. -/
theorem readBody_delivers
    (h : response.Delivers max_size body)
    (htime : ∀ i total, response.Turn max_size i total → total ≤ max_size →
      response.expired i = false)
    {i total : Nat} {chunks : Bytes} (hturn : response.Turn max_size i total)
    (hchunks : chunks = body.take total) :
    readBody max_size response i total chunks = .ok (body.take (max_size + 1)) := by
  fun_induction readBody max_size response i total chunks with
  | case1 i total chunks hle hexpired =>
      rw [htime i total hturn hle] at hexpired
      cases hexpired
  | case2 i total chunks hle hexpired exc hread =>
      obtain ⟨chunk, hchunk, _⟩ := h i total hturn hle (htime i total hturn hle)
      cases hread.symm.trans hchunk
  | case3 i total chunks hle hexpired hread =>
      obtain ⟨chunk, hchunk, _, _, hend⟩ := h i total hturn hle (htime i total hturn hle)
      cases hread.symm.trans hchunk
      have hshort : body.length ≤ total := hend rfl
      rw [hchunks, List.take_of_length_le hshort, List.take_of_length_le (by omega)]
  | case4 i total chunks hle hexpired chunk hread hne ih =>
      obtain ⟨chunk', hchunk, _, hnext, _⟩ := h i total hturn hle (htime i total hturn hle)
      cases hread.symm.trans hchunk
      refine ih (.next hturn hle (htime i total hturn hle) hchunk hne) ?_
      rw [hchunks, List.take_add, ← List.prefix_iff_eq_take.mp hnext]
  | case5 i total chunks hle =>
      have hexact : total = max_size + 1 := by
        have := (h.total_le hturn).1
        omega
      rw [hchunks, hexact]

/-- The loop keeps what it has read. -/
theorem readBody_append
    (hreads : ∀ i n, ∃ chunk, response.read i n = .ok chunk ∧ chunk.length ≤ n)
    (htime : ∀ i, response.expired i = false) (i total : Nat) (chunks : Bytes) :
    ∃ rest, readBody max_size response i total chunks = .ok (chunks ++ rest) := by
  fun_induction readBody max_size response i total chunks with
  | case1 i total chunks hle hexpired =>
      rw [htime i] at hexpired
      cases hexpired
  | case2 i total chunks hle hexpired exc hread =>
      obtain ⟨chunk, hchunk, _⟩ := hreads i (min 65536 (max_size + 1 - total))
      cases hread.symm.trans hchunk
  | case3 i total chunks hle hexpired hread =>
      exact ⟨[], by rw [List.append_nil]⟩
  | case4 i total chunks hle hexpired chunk hread hne ih =>
      obtain ⟨rest, heq⟩ := ih
      exact ⟨chunk ++ rest, by rw [heq, List.append_assoc]⟩
  | case5 i total chunks hle =>
      exact ⟨[], by rw [List.append_nil]⟩

/-- Every connection whose reads return at most what was asked for delivers some body. -/
theorem Response.exists_delivers
    (hreads : ∀ i n, ∃ chunk, response.read i n = .ok chunk ∧ chunk.length ≤ n) (max_size : Nat) :
    ∃ body, response.Delivers max_size body := by
  let patient : Response := { response with expired := fun _ => false }
  obtain ⟨body, hbody⟩ := @readBody_append patient max_size hreads (fun _ => rfl) 0 0 []
  rw [List.nil_append] at hbody
  refine ⟨body, fun i total hturn hle hexpired => ?_⟩
  have hpatient : patient.Turn max_size i total := by
    clear hle hexpired
    induction hturn with
    | start => exact .start
    | next _ hle _ hread hchunk ih => exact .next ih hle rfl hread hchunk
  obtain ⟨chunks, hlength, heq⟩ := readBody_turn hpatient
  obtain ⟨chunk, hread, hshort⟩ := hreads i (ask max_size total)
  refine ⟨chunk, hread, hshort, ?_⟩
  rw [hbody, readBody, if_pos hle, if_neg Bool.false_ne_true] at heq
  rw [ask] at hread
  have hread' : patient.read i (min 65536 (max_size + 1 - total)) = .ok chunk := hread
  simp only [hread'] at heq
  split_ifs at heq with hchunk
  · cases heq
    exact ⟨hchunk ▸ List.nil_prefix, fun _ => hlength.le⟩
  · obtain ⟨rest, hrest⟩ := @readBody_append patient max_size hreads (fun _ => rfl) (i + 1)
      (total + chunk.length) (chunks ++ chunk)
    cases heq.trans hrest
    refine ⟨⟨rest, ?_⟩, fun hnil => absurd hnil hchunk⟩
    rw [List.append_assoc, ← hlength, List.drop_left]

end Loop

section Result

variable {web : Web} {max_size : Nat} {url : Line} {body data : Bytes} {response : Response}

/-- A length that `int` converts is its value. -/
theorem toInt_eq
    {text : Line} {n : Nat} (h : toInt text = some n) :
    n = int text := by
  unfold toInt at h
  split_ifs at h
  exact (Option.some.inj h).symm

theorem isdigit_of_isdecimal
    {text : Line} (htext : isdecimal text = true) :
    isdigit text = true := by
  simp only [isdecimal, isdigit, Bool.and_eq_true, List.all_eq_true] at htext ⊢
  exact ⟨htext.1, fun c hc => by simp [isDigitChar, htext.2 c hc]⟩

/-- The check of the declared length passes, or `int` refuses the length, or it is over the
limit. -/
theorem checkDeclared_cases (declared : Option Line) :
    FitsDeclared max_size declared ∨ BadDeclared declared ∨
      ∃ exc, checkDeclared max_size declared = .error (.pcutp exc) ∧ exc.cls = .size := by
  cases hcheck : checkDeclared max_size declared with
  | ok _ => exact Or.inl (checkDeclared_ok_iff.mp hcheck)
  | error exc =>
      cases exc with
      | library exc => exact Or.inr (Or.inl (checkDeclared_library_iff.mp hcheck).1)
      | pcutp exc =>
          refine Or.inr (Or.inr ⟨exc, rfl, ?_⟩)
          unfold checkDeclared at hcheck
          split at hcheck
          · cases hcheck
          · split_ifs at hcheck
            split at hcheck
            · cases hcheck
            · split_ifs at hcheck
              cases hcheck
              rfl

/-- A declared length over the limit is refused before the first read. -/
theorem fetch_declared
    {exc : PcutpError} (hopens : web.Opens url response)
    (hcheck : checkDeclared max_size response.content_length = .error (.pcutp exc)) :
    fetch web max_size url = .error (.pcutp exc) := by
  rw [fetch, validate_ok_iff.mpr hopens.1, download, openFrom_ok_iff.mpr hopens.2]
  simp only [hcheck]
  rfl

/-- What the loop has read in time is returned when it is not over the limit. -/
theorem fetch_read
    (hopens : web.Opens url response) (hfits : FitsDeclared max_size response.content_length)
    (hbody : readBody max_size response 0 0 [] = .ok data) (htime : response.overdue = false) :
    fetch web max_size url =
      if data.length > max_size then .error (.pcutp (SizeError "body exceeds limit"))
      else .ok data := by
  rw [fetch, validate_ok_iff.mpr hopens.1, download, openFrom_ok_iff.mpr hopens.2]
  simp only [checkDeclared_ok_iff.mpr hfits, hbody, htime]
  rfl

/-- When `fetch` returns data, its loop has read them in time. -/
theorem fetch_ok
    (h : fetch web max_size url = .ok data) :
    ∃ response, web.Opens url response ∧ FitsDeclared max_size response.content_length ∧
      readBody max_size response 0 0 [] = .ok data ∧ response.overdue = false ∧
      data.length ≤ max_size := by
  unfold fetch at h
  split at h
  · cases h
  · rename_i hvalid
    split at h
    · cases h
    · rename_i read hread
      split_ifs at h with hle
      cases h
      have hdownload : download web max_size = .ok data := by
        cases hdown : download web max_size with
        | error exc =>
            rw [hdown] at hread
            cases hread
        | ok read =>
            rw [hdown] at hread
            cases hread
            rfl
      unfold download at hdownload
      split at hdownload
      · cases hdownload
      · rename_i response hopen
        split at hdownload
        · cases hdownload
        · rename_i hcheck
          split at hdownload
          · cases hdownload
          · rename_i read hbody
            split_ifs at hdownload with htime
            cases hdownload
            exact ⟨response, ⟨validate_ok_iff.mp hvalid, openFrom_ok_iff.mp hopen⟩,
              checkDeclared_ok_iff.mp hcheck, hbody, Bool.eq_false_iff.mpr htime,
              Nat.not_lt.mp hle⟩

/-- In time the loop reads the body up to one byte over the limit. -/
theorem readBody_in_time
    (h : response.Delivers max_size body) (htime : ¬ response.Late max_size) :
    readBody max_size response 0 0 [] = .ok (body.take (max_size + 1)) := by
  refine readBody_delivers h (fun i total hturn hle => ?_) .start List.take_zero.symm
  exact Bool.eq_false_iff.mpr fun hexpired => htime (Or.inr ⟨i, total, hturn, hle, hexpired⟩)

/-- A loop that has read data was in time. -/
theorem not_late
    (hbody : readBody max_size response 0 0 [] = .ok data) (htime : response.overdue = false) :
    ¬ response.Late max_size := by
  rintro (hlate | ⟨i, total, hturn, hle, hexpired⟩)
  · rw [htime] at hlate
    cases hlate
  · cases hbody.symm.trans (readBody_expired hturn hle hexpired)

theorem Web.Opens.unique
    {response' : Response} (h : web.Opens url response) (h' : web.Opens url response') :
    response = response' :=
  Except.ok.inj (h.2.2.symm.trans h'.2.2)

/-- The body is complete or refused exactly when the library raises nothing that `fetch` has no
handler for and the declared length is true. -/
theorem whole_body_iff
    (web : Web) (max_size : Nat) (url : Line) (body : Bytes)
    (hreads : ∀ response, web.Opens url response → response.Delivers max_size body) :
    web.Whole max_size url body ↔
      (∀ exc, web.Raises max_size url exc → exc.handled = true) ∧
        web.Truthful max_size url body := by
  constructor
  · intro h
    have hhandled := refused_iff.mp h.refused
    refine ⟨hhandled, fun response text hopens hdeclared htext hlimit hshort htime => ?_⟩
    have hfits : FitsDeclared max_size response.content_length := by
      intro text' hdeclared' hdigit
      cases hdeclared.symm.trans hdeclared'
      cases hint : toInt text with
      | none =>
          cases hhandled _ (.declared response hopens.1 hopens.2.1 hopens.2.2
            ⟨text, hdeclared, hdigit, hint⟩)
      | some n => exact ⟨n, toInt_eq hint ▸ hlimit, rfl⟩
    have hbody := readBody_in_time (hreads response hopens) htime
    rw [List.take_of_length_le (by omega)] at hbody
    have hfetch := fetch_read hopens hfits hbody
      (Bool.eq_false_iff.mpr fun hlate => htime (Or.inl hlate))
    rw [if_neg (Nat.not_lt.mpr hshort)] at hfetch
    exact (h.complete body hfetch).2.2 response text hopens hdeclared htext
  · rintro ⟨hhandled, htruth⟩
    refine
      { complete := fun data hdata => ?_
        oversize := fun response hopens hlong => ?_
        capped := fun response hopens i total hturn => ((hreads response hopens).total_le hturn).1
        refused := refused_iff.mpr hhandled }
    · obtain ⟨response, hopens, hfits, hbody, htime, hle⟩ := fetch_ok hdata
      have hlate := not_late hbody htime
      have hwhole : data = body := by
        cases hbody.symm.trans (readBody_in_time (hreads response hopens) hlate)
        rw [List.length_take] at hle
        exact List.take_of_length_le (by omega)
      subst hwhole
      refine ⟨rfl, hle, fun response' text hopens' hdeclared htext => ?_⟩
      cases hopens.unique hopens'
      obtain ⟨n, hlimit, hint⟩ := hfits text hdeclared (isdigit_of_isdecimal htext)
      rw [toInt_eq hint] at hlimit
      exact htruth response text hopens hdeclared htext hlimit hle hlate
    · by_cases hlate : response.Late max_size
      · exact Or.inl hlate
      · refine Or.inr ?_
        rcases checkDeclared_cases response.content_length with hfits | hbad | ⟨exc, hcheck, hexc⟩
        · have hfetch := fetch_read hopens hfits
            (readBody_in_time (hreads response hopens) hlate)
            (Bool.eq_false_iff.mpr fun hoverdue => hlate (Or.inl hoverdue))
          rw [if_pos (by rw [List.length_take]; omega)] at hfetch
          exact ⟨_, hfetch, rfl⟩
        · cases hhandled _ (.declared response hopens.1 hopens.2.1 hopens.2.2 hbad)
        · exact ⟨exc, fetch_declared hopens hcheck, hexc⟩

/-- A server that sends two bytes and closes the connection. -/
def shortResponse (declared : String) : Response where
  content_length := some declared.toList
  expired := fun _ => false
  read := fun i n => .ok (if i = 0 then [65, 66].take n else [])
  overdue := false
  geturl := "http://host/".toList

/-- The library, for such a server. -/
def shortWeb (declared : String) : Web where
  urlparse := fun _ => some ("http".toList, "host".toList)
  redirects := []
  opened := .ok (shortResponse declared)

theorem shortResponse_turn
    {declared : String} {i total : Nat} (h : (shortResponse declared).Turn 10 i total) :
    (i = 0 ∧ total = 0) ∨ (i = 1 ∧ total = 2) := by
  induction h with
  | start => exact Or.inl ⟨rfl, rfl⟩
  | next _ _ _ hread hchunk ih =>
      rcases ih with ⟨rfl, rfl⟩ | ⟨rfl, rfl⟩
      · cases hread
        exact Or.inr ⟨rfl, rfl⟩
      · cases hread
        exact absurd rfl hchunk

theorem shortWeb_delivers (declared : String) :
    ∀ response, (shortWeb declared).Opens "http://host/".toList response →
      response.Delivers 10 [65, 66] := by
  rintro response ⟨_, _, hopened⟩
  cases hopened
  intro i total hturn _ _
  rcases shortResponse_turn hturn with ⟨rfl, rfl⟩ | ⟨rfl, rfl⟩
  · exact ⟨[65, 66], rfl, by decide, List.prefix_rfl, fun hnil => by cases hnil⟩
  · exact ⟨[], rfl, by decide, List.nil_prefix, fun _ => by decide⟩

theorem whole_body_two_of_two :
    (shortWeb "2").Whole 10 "http://host/".toList [65, 66] := by
  have hfetch : fetch (shortWeb "2") 10 "http://host/".toList = .ok [65, 66] := by
    decide +kernel
  refine (whole_body_iff (shortWeb "2") 10 "http://host/".toList [65, 66]
    (shortWeb_delivers "2")).mpr ⟨refused_iff.mp fun exc hexc => ?_, ?_⟩
  · cases hfetch.symm.trans hexc
  · rintro response text ⟨_, _, hopened⟩ hdeclared _ _ _ _
    cases hopened
    cases hdeclared
    decide

/-- Two bytes of five are returned as the file. -/
theorem whole_body_two_of_five :
    (∀ response, (shortWeb "5").Opens "http://host/".toList response →
      response.Delivers 10 [65, 66]) ∧
    fetch (shortWeb "5") 10 "http://host/".toList = .ok [65, 66] ∧
    ¬ (shortWeb "5").Whole 10 "http://host/".toList [65, 66] := by
  have hfetch : fetch (shortWeb "5") 10 "http://host/".toList = .ok [65, 66] := by
    decide +kernel
  refine ⟨shortWeb_delivers "5", hfetch, fun h => ?_⟩
  have hopens : (shortWeb "5").Opens "http://host/".toList (shortResponse "5") :=
    ⟨⟨_, _, rfl, by decide, by decide⟩, List.forall_mem_nil _, rfl⟩
  have hlength : 2 = int "5".toList := (h.complete [65, 66] hfetch).2.2 _ _ hopens rfl (by decide)
  revert hlength
  decide

end Result

end Pcutp
