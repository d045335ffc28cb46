import Djangors.Http.Csrf

/-! # CSRF protection on every path

A handler that is called behind the layer is called for a request that carries the token of its cookie, whichever
function dispatches it. -/

namespace Djangors.Http

/-! ### Comparing tokens -/

theorem or_eq_zero (a b : UInt8) : a ||| b = 0 ↔ a = 0 ∧ b = 0 := by
  rw [← UInt8.toBitVec_inj, ← UInt8.toBitVec_inj, ← UInt8.toBitVec_inj, UInt8.toBitVec_or]
  exact BitVec.or_eq_zero_iff

/-- The differences of the bytes are all zero when the bytes are the same. -/
theorem foldl_eq_zero {a b : List UInt8} (hlen : a.length = b.length) (acc : UInt8) :
    (a.zip b).foldl (fun acc pair => acc ||| (pair.1 ^^^ pair.2)) acc = 0 ↔ acc = 0 ∧ a = b := by
  induction a generalizing b acc with
  | nil =>
    rw [List.eq_nil_of_length_eq_zero hlen.symm]
    simp
  | cons x a ih =>
    cases b with
    | nil => cases hlen
    | cons y b =>
      rw [List.zip_cons_cons, List.foldl_cons, ih (Nat.succ.inj hlen), or_eq_zero, UInt8.xor_eq_zero_iff, and_assoc,
        List.cons.injEq]

/-- Comparing in constant time is comparing. -/
theorem constantTimeEq_iff (a b : List UInt8) : constantTimeEq a b = true ↔ a = b := by
  rw [constantTimeEq]
  split
  · rename_i hlen
    exact ⟨fun h => (by cases h), fun h => absurd (congrArg List.length h) hlen⟩
  · rename_i hlen
    rw [beq_iff_eq, foldl_eq_zero (not_not.mp hlen)]
    exact and_iff_right rfl

theorem tokenBytes_injective {token token' : List Char} (h : tokenBytes token = tokenBytes token') : token = token' := by
  have htext := congrArg Text.ofBytes? h
  rw [tokenBytes, tokenBytes, Text.ofBytes?_bytes, Text.ofBytes?_bytes, Option.some_inj] at htext
  exact String.ofList_injective htext

/-! ### Cookies -/

theorem findCookie_some {cookieName value : List Char} {cookies : List (List Char)}
    (h : findCookie cookieName cookies = some (some value)) :
    ∃ cookie ∈ cookies, Text.trim cookie = cookieName ++ '=' :: value := by
  induction cookies with
  | nil => cases h
  | cons cookie cookies ih =>
    rw [findCookie] at h
    split at h
    · rename_i hname
      split at h
      · cases h
      · rename_i c val hval
        cases h
        refine ⟨cookie, List.mem_cons_self .., ?_⟩
        have hc := List.head_dropWhile_not (fun c : Char => decide (c ≠ '=')) (hval ▸ List.cons_ne_nil _ _)
        simp only [hval, List.head_cons, decide_eq_false_iff_not, not_not] at hc
        rw [← List.takeWhile_append_dropWhile (p := fun c : Char => decide (c ≠ '=')) (l := Text.trim cookie), hname, hval, hc]
    · rcases ih h with ⟨found, hmem, htrim⟩
      exact ⟨found, List.mem_cons_of_mem _ hmem, htrim⟩

theorem extractFrom_some {cookieName value : List Char} {headers : List (List UInt8)}
    (h : extractFrom cookieName headers = some value) :
    ∃ header ∈ headers, ∃ text, toStr header = some text ∧
      ∃ cookie ∈ text.splitOn ';', Text.trim cookie = cookieName ++ '=' :: value := by
  induction headers with
  | nil => cases h
  | cons header headers ih =>
    rw [extractFrom] at h
    split at h
    · cases h
    · rename_i text htext
      split at h
      · rename_i found hfound
        rw [h] at hfound
        exact ⟨header, List.mem_cons_self .., text, htext, findCookie_some hfound⟩
      · rcases ih h with ⟨other, hmem, hcookie⟩
        exact ⟨other, List.mem_cons_of_mem _ hmem, hcookie⟩

/-- The cookie that is found is a cookie of the request. -/
theorem hasCookie_of_extract {headers : HeaderMap} {cookieName value : List Char}
    (h : extractCookie headers cookieName = some value) : HasCookie headers cookieName value := extractFrom_some h

/-! ### The layer -/

section Layer
variable (layer : CsrfLayer) (random : List UInt8) (req : HyperRequest)

/-- A token is that of the cookie, or it is generated. -/
theorem tokenValue_cases :
    ((layer.tokenValue random req).1 ≠ [] ∧ HasCookie req.headers layer.cookieName (layer.tokenValue random req).1) ∨
      (layer.tokenValue random req).1 = generateCsrfToken random := by
  rw [CsrfLayer.tokenValue]
  split
  · rename_i val hval
    split
    · rename_i hne
      exact .inl ⟨hne, hasCookie_of_extract hval⟩
    · exact .inr rfl
  · exact .inr rfl

/-- An unsafe request has its token in the header, or it is marked. -/
theorem marked_cases (hmethod : req.method.isUnsafe = true) :
    HasHeaderToken layer req (layer.tokenValue random req).1 ∨
      (layer.marked random req).extensions.csrfPendingFormCheck = some (layer.tokenValue random req).1 := by
  cases hvalid : (req.headers.get layer.headerName).any fun headerVal =>
      constantTimeEq headerVal (tokenBytes (layer.tokenValue random req).1) with
  | true =>
    rcases (Option.any_eq_true _ _).mp hvalid with ⟨headerVal, hheader, heq⟩
    rw [(constantTimeEq_iff _ _).mp heq] at hheader
    exact .inl hheader
  | false =>
    right
    rw [CsrfLayer.marked]
    simp only [hvalid, hmethod, Bool.not_false, Bool.and_self, if_true]

end Layer

/-! ### The dispatch functions -/

section Dispatching
variable (parseForm : List UInt8 → Option (List Char → Option (List Char)))

theorem hasFormToken_of_check {req : Request} {pending : List Char}
    (hpending : req.extensions.csrfPendingFormCheck = some pending) (h : pendingCheckFails parseForm req = false) :
    formToken parseForm req = some pending := by
  rw [pendingCheckFails, hpending] at h
  cases htoken : formToken parseForm req with
  | none =>
    rw [htoken] at h
    cases h
  | some token =>
    rw [htoken] at h
    have heq : constantTimeEq (tokenBytes token) (tokenBytes pending) = true := by simpa using h
    rw [tokenBytes_injective ((constantTimeEq_iff _ _).mp heq)]

theorem hasFormToken_of_formToken {req : HyperRequest} {bytes : List UInt8} {extensions : Extensions} {token : List Char}
    (hbody : req.body = .ok bytes)
    (h : formToken parseForm ⟨req.method, req.path, req.headers, extensions, bytes⟩ = some token) :
    HasFormToken parseForm req token := by
  rw [formToken] at h
  dsimp only at h
  split at h
  · rename_i htype
    rcases (Option.any_eq_true _ _).mp htype with ⟨contentType, hcontent, hpre⟩
    rcases Option.bind_eq_some_iff.mp hcontent with ⟨header, hheader, hstr⟩
    rcases Option.bind_eq_some_iff.mp h with ⟨form, hform, htoken⟩
    exact ⟨bytes, hbody, ⟨header, contentType, hheader, hstr, List.isPrefixOf_iff_prefix.mp hpre⟩, form, hform, htoken⟩
  · cases h

/-- What happens when a request is passed to a dispatch function: nothing, or what happens when it is handled. -/
def dispatchEvents (app : App) (req : HyperRequest) : List Event :=
  match req.body with
  | .error _ => []
  | .ok bytes =>
    if pendingCheckFails parseForm ⟨req.method, req.path, req.headers, req.extensions, bytes⟩ then []
    else (app.handleDispatch ⟨req.method, req.path, req.headers, req.extensions, bytes⟩).1

/-- The dispatch functions differ in what they answer, not in what they do. -/
theorem run_events (app : App) (path : DispatchPath) (req : HyperRequest) :
    (path.run parseForm app req).1 = dispatchEvents parseForm app req := by
  have common : ∀ render handle, (∀ req, (handle req).1 = (app.handleDispatch req).1) →
      (dispatchWith parseForm render handle req).1 = dispatchEvents parseForm app req := by
    intro render handle h
    rw [dispatchWith, dispatchEvents]
    cases req.body with
    | error e => rfl
    | ok bytes =>
      dsimp only
      split
      · rfl
      · exact h _
  cases path with
  | dispatch => exact common _ _ fun _ => rfl
  | dispatchDebug debug => exact common _ _ fun _ => rfl
  | dispatchBoxed debug => exact common _ _ fun _ => rfl

/-- Nothing happens to a marked request without the token in its form. -/
theorem hasFormToken_of_events {app : App} {req : HyperRequest} {pending : List Char} {event : Event}
    (hpending : req.extensions.csrfPendingFormCheck = some pending) (h : event ∈ dispatchEvents parseForm app req) :
    HasFormToken parseForm req pending := by
  rw [dispatchEvents] at h
  split at h
  · cases h
  · rename_i bytes hbody
    split at h
    · cases h
    · rename_i hpass
      exact hasFormToken_of_formToken parseForm hbody
        (hasFormToken_of_check parseForm hpending (Bool.not_eq_true _ ▸ hpass))

/-- A handler is called only for a request that carries its token, and the dispatch functions call the same. -/
theorem csrf_sound (layer : CsrfLayer) (random : List UInt8) (app : App) (req : HyperRequest) :
    (req.method.isUnsafe = true → Unguessed parseForm layer random req → ∀ path idx handled params,
        .handlerCalled idx handled params ∈ events parseForm layer random app path req →
          Authorized parseForm layer req) ∧
      ∀ path path', events parseForm layer random app path req = events parseForm layer random app path' req := by
  constructor
  · intro hmethod unguessed path idx handled params hcalled
    rw [events, CsrfLayer.call, run_events] at hcalled
    have carried : HasHeaderToken layer req (layer.tokenValue random req).1 ∨
        HasFormToken parseForm req (layer.tokenValue random req).1 := by
      rcases marked_cases layer random req hmethod with hheader | hpending
      · exact .inl hheader
      · -- The mark changes neither the headers nor the body.
        have hform := hasFormToken_of_events parseForm hpending hcalled
        exact .inr hform
    rcases tokenValue_cases layer random req with ⟨hne, hcookie⟩ | hfresh
    · exact ⟨_, hne, hcookie, carried⟩
    · rw [hfresh] at carried
      exact absurd carried (not_or.mpr unguessed)
  · intro path path'
    rw [events, events, CsrfLayer.call, CsrfLayer.call, run_events, run_events]

end Dispatching

/-! ### A comment form -/

def ascii (text : String) : List UInt8 := text.toList.map fun c => UInt8.ofNat c.toNat

/-- Reads the one form of the example. -/
def readComment (body : List UInt8) : Option (List Char → Option (List Char)) :=
  if body = ascii "csrfmiddlewaretoken=abc" then
    some fun key => if key = "csrfmiddlewaretoken".toList then some "abc".toList else none
  else none

def commentRequest : HyperRequest where
  method := .post
  path := "/comments/".toList
  headers := [("cookie".toList, ascii "theme=dark; csrftoken=abc"),
    ("content-type".toList, ascii "application/x-www-form-urlencoded")]
  extensions := ⟨none, none⟩
  body := .ok (ascii "csrfmiddlewaretoken=abc")

def commentApp : App :=
  Router.new.route "/comments".toList .post (.standard fun _ _ => .done (.ok ⟨201, [], []⟩))

theorem comment_authorized : Authorized readComment .new commentRequest := by
  have unguessed : Unguessed readComment .new [0] commentRequest := by
    constructor
    · rintro ⟨⟩
    · rintro ⟨body, hbody, -, form, hform, htoken⟩
      cases hbody
      cases hform
      cases htoken
  exact (csrf_sound readComment .new [0] commentApp commentRequest).1 rfl unguessed .dispatch 0 _ _
    (List.mem_cons_of_mem _ (List.mem_cons_self ..))

end Djangors.Http
