import Djangors.Lib.Finmap
import Djangors.Sessions.Service
import Djangors.Theorems.SessionCookies

/-! # Sessions from request to request

A session that is changed or new is saved in the cookie of the response, and a session that is neither is still what
the cookie before it gives back. So each handler finds the data that the handler before it has left. -/

namespace Djangors.Sessions
open Auth

variable {V : Type} {json : SerdeJson V} {hmac : List UInt8 → List UInt8 → List UInt8} {store : SignedCookieStore}
  {codec : MessageCodec V}

/-! ### Cookies of requests -/

theorem findCookie_skip {cookieName cookie : List Char} (h : nameOf cookie ≠ cookieName) (cookies : List (List Char)) :
    Http.findCookie cookieName (cookie :: cookies) = Http.findCookie cookieName cookies := if_neg h

theorem findCookie_none {cookieName : List Char} {cookies : List (List Char)}
    (h : ∀ cookie ∈ cookies, nameOf cookie ≠ cookieName) : Http.findCookie cookieName cookies = none := by
  induction cookies with
  | nil => rfl
  | cons cookie cookies ih =>
    obtain ⟨hname, hrest⟩ := List.forall_mem_cons.mp h
    rw [findCookie_skip hname, ih hrest]

/-- A cookie is found behind cookies with other names. -/
theorem findCookie_behind {cookieName value cookie : List Char} {earlier later : List (List Char)} (heq : '=' ∉ cookieName)
    (h : ∀ other ∈ earlier, nameOf other ≠ cookieName) (hcookie : Text.trim cookie = cookieName ++ '=' :: value) :
    Http.findCookie cookieName (earlier ++ cookie :: later) = some (some value) := by
  have hsolid : ∀ c ∈ cookieName, decide (c ≠ '=') = true := fun c hc => decide_eq_true fun heq' => heq (heq' ▸ hc)
  induction earlier with
  | nil =>
    rw [List.nil_append, Http.findCookie, hcookie, List.takeWhile_append_of_pos hsolid, List.dropWhile_append_of_pos hsolid]
    simp
  | cons other earlier ih =>
    obtain ⟨hname, hrest⟩ := List.forall_mem_cons.mp h
    rw [List.cons_append, findCookie_skip hname, ih hrest]

theorem extract_foreign {cookieName : List Char} {headers : List (List UInt8)} (h : ∀ header ∈ headers, Foreign cookieName header) :
    Http.extractFrom cookieName headers = none := by
  induction headers with
  | nil => rfl
  | cons header headers ih =>
    obtain ⟨hheader, hrest⟩ := List.forall_mem_cons.mp h
    rw [Http.extractFrom]
    cases htext : Http.toStr header with
    | none => rfl
    | some text => simp only [findCookie_none (hheader text htext), ih hrest]

theorem extract_carries {cookieName value : List Char} {headers : Http.HeaderMap} (heq : '=' ∉ cookieName)
    (h : Carries cookieName value headers) : extractSessionCookie headers cookieName = some value := by
  obtain ⟨before, header, after, text, hall, hbefore, htext, earlier, cookie, later, hsplit, hearlier, hcookie⟩ := h
  rw [extractSessionCookie, Http.extractCookie, hall]
  clear hall
  induction before with
  | nil => simp only [List.nil_append, Http.extractFrom, htext, hsplit, findCookie_behind heq hearlier hcookie]
  | cons other before ih =>
    obtain ⟨⟨hforeign, hsome⟩, hrest⟩ := List.forall_mem_cons.mp hbefore
    obtain ⟨otherText, hother⟩ := Option.isSome_iff_exists.mp hsome
    simp only [List.cons_append, Http.extractFrom, hother, findCookie_none (hforeign otherText hother), ih hrest]

/-! ### Cookies of responses -/

theorem cookieName_solid {c : Char} (h : isCookieName store.cookieName = true) (hc : c ∈ store.cookieName) :
    33 ≤ c.toNat ∧ c.toNat ≤ 126 ∧ c ≠ ';' ∧ c ≠ '=' := by
  rw [isCookieName, Bool.and_eq_true, List.all_eq_true] at h
  have hall := h.2 c hc
  simp only [Bool.and_eq_true, decide_eq_true_eq, Bool.not_eq_true', List.contains_eq_mem, decide_eq_false_iff_not] at hall
  refine ⟨hall.1.1, hall.1.2, ?_, ?_⟩
  · rintro rfl
    exact hall.2 (by decide)
  · rintro rfl
    exact hall.2 (by decide)

theorem encodeBytes_solid (bytes : List UInt8) : ∀ c ∈ (encodeBytes bytes).toList, 33 ≤ c.toNat ∧ c.toNat ≤ 126 ∧ c ≠ ';' := by
  rw [encodeBytes, String.toList_ofList]
  refine Base64.forall_mem_encode (fun i hi => ?_) (by decide) bytes
  exact (by decide : ∀ j : Fin 64, 33 ≤ (Base64.symbol j).toNat ∧ (Base64.symbol j).toNat ≤ 126 ∧ Base64.symbol j ≠ ';') ⟨i, hi⟩

/-- A cookie is printable, and has no semicolon. -/
theorem cookieText_solid (text : String) (expiresAt : Nat) :
    ∀ c ∈ (cookieText hmac store text expiresAt).toList, 33 ≤ c.toNat ∧ c.toNat ≤ 126 ∧ c ≠ ';' := by
  have hdot : ∀ c ∈ ".".toList, 33 ≤ c.toNat ∧ c.toNat ≤ 126 ∧ c ≠ ';' := List.forall_mem_singleton.mpr (by decide)
  simp only [cookieText, cookieMessage, String.toList_append, List.forall_mem_append]
  exact ⟨⟨⟨⟨encodeBytes_solid _, hdot⟩, encodeBytes_solid _⟩, hdot⟩, encodeBytes_solid _⟩

/-- A response can set the cookie. -/
theorem setCookieVal_header (hname : isCookieName store.cookieName = true) (text : String) (expiresAt : Nat) :
    Http.isHeaderText (store.setCookieVal (cookieText hmac store text expiresAt)) = true := by
  have hvisible {c : Char} (hlow : 32 ≤ c.toNat) (hhigh : c.toNat ≤ 126) :
      (c == '\t' || 32 ≤ c.toNat && c.toNat != 127) = true := by
    have hne : c.toNat ≠ 127 := by omega
    simp [hlow, hne]
  have hcookieName : ∀ c ∈ store.cookieName, (c == '\t' || 32 ≤ c.toNat && c.toNat != 127) = true := fun c hc => by
    have hsolid := cookieName_solid hname hc
    exact hvisible (by omega) hsolid.2.1
  have hcookie : ∀ c ∈ (cookieText hmac store text expiresAt).toList, (c == '\t' || 32 ≤ c.toNat && c.toNat != 127) = true :=
    fun c hc => by
      have hsolid := cookieText_solid text expiresAt c hc
      exact hvisible (by omega) hsolid.2.1
  have hage : ∀ c ∈ (toString store.maxAge.asSecs).toList, (c == '\t' || 32 ≤ c.toNat && c.toNat != 127) = true :=
    fun c hc => by
      have hdigit := (Text.digits_of_toString _).2 c hc
      rw [Char.isDigit, Bool.and_eq_true, decide_eq_true_eq, decide_eq_true_eq] at hdigit
      have hlow : 48 ≤ c.toNat := hdigit.1
      have hhigh : c.toNat ≤ 57 := hdigit.2
      exact hvisible (by omega) (by omega)
  have hattributes : Http.isHeaderText "; Path=/; HttpOnly; SameSite=Lax; Max-Age=".toList = true := by decide
  have hsecure : Http.isHeaderText (if store.secure then "; Secure".toList else []) = true := by
    split
    · decide
    · rfl
  rw [Http.isHeaderText, List.all_eq_true] at hattributes hsecure ⊢
  rw [SignedCookieStore.setCookieVal]
  simp only [List.forall_mem_append, List.forall_mem_cons]
  exact ⟨⟨⟨⟨hcookieName, by decide, hcookie⟩, hattributes⟩, hage⟩, hsecure⟩

/-- The client gets the value of the cookie. -/
theorem givenValue_setCookieVal (hname : isCookieName store.cookieName = true) (text : String) (expiresAt : Nat) :
    givenValue (store.setCookieVal (cookieText hmac store text expiresAt)) = (cookieText hmac store text expiresAt).toList := by
  have hpair : ∀ c ∈ store.cookieName ++ '=' :: (cookieText hmac store text expiresAt).toList, decide (c ≠ ';') = true := by
    simp only [List.forall_mem_append, List.forall_mem_cons]
    exact ⟨fun c hc => decide_eq_true (cookieName_solid hname hc).2.2.1, by decide,
      fun c hc => decide_eq_true (cookieText_solid text expiresAt c hc).2.2⟩
  have hsolid : ∀ c ∈ store.cookieName, decide (c ≠ '=') = true := fun c hc =>
    decide_eq_true (cookieName_solid hname hc).2.2.2
  have htake : (store.setCookieVal (cookieText hmac store text expiresAt)).takeWhile (· ≠ ';') =
      store.cookieName ++ '=' :: (cookieText hmac store text expiresAt).toList := by
    rw [SignedCookieStore.setCookieVal, List.append_assoc, List.append_assoc, List.takeWhile_append_of_pos hpair]
    have hstop : "; Path=/; HttpOnly; SameSite=Lax; Max-Age=".toList = ';' :: " Path=/; HttpOnly; SameSite=Lax; Max-Age=".toList := by
      decide
    rw [hstop, List.cons_append, List.takeWhile_cons_of_neg (by decide), List.append_nil]
  rw [givenValue, htake, List.dropWhile_append_of_pos hsolid]
  simp

/-! ### Calls -/

section Calls
variable {s : SessionInner V} {call : SessionCall V} {calls : List (SessionCall V)} {key : List Char}

theorem remove_unmodified (h : (s.remove key).modified = false) : s.remove key = s := by
  rw [SessionInner.remove] at h ⊢
  split at h
  · cases h
  · rename_i hnone
    rw [if_neg hnone]

/-- A call marks the session when it changes it. -/
theorem run_unmodified (h : (call.run json codec s).1.modified = false) : (call.run json codec s).1 = s := by
  cases call with
  | set key value =>
    cases value with
    | none => rfl
    | some value => cases h
  | remove key => exact remove_unmodified h
  | clear => cases h
  | cycleKey => cases h
  | add => cases h
  | take => exact remove_unmodified h

theorem runCalls_unmodified (h : (runCalls json codec calls s).1.modified = false) :
    (runCalls json codec calls s).1 = s := by
  induction calls generalizing s with
  | nil => rfl
  | cons call calls ih =>
    have hrest : (runCalls json codec (call :: calls) s).1 = (call.run json codec s).1 := ih h
    rw [hrest] at h ⊢
    exact run_unmodified h

theorem remove_new : (s.remove key).new = s.new := by
  rw [SessionInner.remove]
  split <;> rfl

/-- Whether a session is new does not change. -/
theorem run_new : (call.run json codec s).1.new = s.new := by
  cases call with
  | set key value => cases value <;> rfl
  | remove key => exact remove_new
  | clear => rfl
  | cycleKey => rfl
  | add => rfl
  | take => exact remove_new

theorem runCalls_new : (runCalls json codec calls s).1.new = s.new := by
  induction calls generalizing s with
  | nil => rfl
  | cons call calls ih => exact ih.trans run_new

/-! ### Messages -/

theorem messagesKey_ne : messagesKey ≠ sessionKey := by decide

/-- The messages are data of the application. -/
theorem messages_congr {t : SessionInner V} (h : s.application = t.application) : s.messages codec = t.messages codec := by
  have hlookup := congrArg (·.lookup messagesKey) h
  simp only [SessionInner.application, Finmap.lookup_erase', if_neg messagesKey_ne.symm] at hlookup
  rw [SessionInner.messages, SessionInner.messages, SessionInner.get?, SessionInner.get?, hlookup]

theorem newEmpty_messages (random : List UInt8) : (SessionInner.newEmpty json random).messages codec = [] := by
  simp [SessionInner.messages, SessionInner.get?, SessionInner.newEmpty, Finmap.lookup_insert', if_neg messagesKey_ne.symm]

theorem remove_lookup (name : List Char) :
    (s.remove key).data.lookup name = if key = name then none else s.data.lookup name := by
  rw [SessionInner.remove]
  split
  · exact Finmap.lookup_erase' s.data key name
  · rename_i hnone
    split
    · rename_i heq
      rw [← heq]
      simpa using hnone
    · rfl

theorem remove_messages : (s.remove key).messages codec = if key = messagesKey then [] else s.messages codec := by
  rw [SessionInner.messages, SessionInner.get?, remove_lookup]
  split <;> rfl

/-- A call leaves the messages that are due, and a take returns those that were. -/
theorem run_messages : (call.run json codec s).1.messages codec = call.due codec (s.messages codec) := by
  cases call with
  | set key value =>
    cases value with
    | none => rfl
    | some value =>
      simp only [SessionCall.run, SessionInner.set, SessionInner.messages, SessionInner.get?, Finmap.lookup_insert',
        SessionCall.due]
      split <;> rfl
  | remove key => exact remove_messages
  | clear random => exact newEmpty_messages random
  | cycleKey => rfl
  | add message =>
    simp only [SessionCall.run, SessionInner.set, SessionInner.messages, SessionInner.get?, Finmap.lookup_insert', if_true,
      Option.bind_some, codec.fromValue_toValue, Option.getD_some, SessionCall.due]
  | take => exact remove_messages.trans (if_pos rfl)

theorem runCalls_messages : (runCalls json codec calls s).1.messages codec =
    calls.foldl (fun pending call => call.due codec pending) (s.messages codec) := by
  induction calls generalizing s with
  | nil => rfl
  | cons call calls ih =>
    have hcall : ((call.run json codec s).1).messages codec = call.due codec (s.messages codec) := run_messages
    rw [List.foldl_cons, ← hcall]
    exact ih

theorem runCalls_delivered : (runCalls json codec calls s).2 = dueDeliveries codec (s.messages codec) calls := by
  induction calls generalizing s with
  | nil => rfl
  | cons call calls ih =>
    have hrest : (runCalls json codec (call :: calls) s).2 =
        (call.run json codec s).2.toList ++ dueDeliveries codec (call.due codec (s.messages codec)) calls := by
      have hcall : ((call.run json codec s).1).messages codec = call.due codec (s.messages codec) := run_messages
      rw [← hcall, ← ih]
      rfl
    rw [hrest]
    cases call <;> rfl

theorem dueDeliveries_append (pending : List Message) (calls later : List (SessionCall V)) :
    dueDeliveries codec pending (calls ++ later) = dueDeliveries codec pending calls ++
      dueDeliveries codec (calls.foldl (fun pending call => call.due codec pending) pending) later := by
  induction calls generalizing pending with
  | nil => rfl
  | cons call calls ih =>
    cases call with
    | take => exact congrArg (pending :: ·) (ih [])
    | _ => exact ih _

end Calls

/-! ### Exchanges -/

section Exchanges
variable {x : Exchange V} {given : Option Given} {data : Data V}

/-- The cookie that the client holds gives back these data of the application until it expires. -/
def Holds (json : SerdeJson V) (hmac : List UInt8 → List UInt8 → List UInt8) (store : SignedCookieStore)
    (given : Option Given) (data : Data V) : Prop :=
  ∃ g, given = some g ∧ ∀ now : Duration, now.asSecs < g.expiresAt →
    ∃ s, store.decode json hmac now g.value = some s ∧ s.modified = false ∧ s.new = false ∧ s.application = data

theorem encoded_application (s : SessionInner V) (random : List UInt8) :
    (s.encoded json random).application = s.application := by
  rw [SessionInner.encoded]
  split
  · refine Finmap.ext_lookup fun key => ?_
    simp only [SessionInner.application, Finmap.lookup_erase', Finmap.lookup_insert']
    split <;> rfl
  · rfl

theorem opened_first (h : x.Follows json hmac store codec none) : x.opened json hmac store = .newEmpty json x.random := by
  rw [Exchange.opened, extractSessionCookie, Http.extractCookie, extract_foreign (h.first rfl)]

/-- The session that is opened has the data that the cookie gives back. -/
theorem opened_holds (hname : isCookieName store.cookieName = true)
    (sent : ∀ g, given = some g → Carries store.cookieName g.value x.headers ∧ x.decodedAt.asSecs < g.expiresAt)
    (holds : Holds json hmac store given data) :
    (x.opened json hmac store).modified = false ∧ (x.opened json hmac store).new = false ∧
      (x.opened json hmac store).application = data := by
  obtain ⟨g, rfl, hgives⟩ := holds
  obtain ⟨hcarries, halive⟩ := sent g rfl
  obtain ⟨s, hdecode, hs⟩ := hgives x.decodedAt halive
  have heq : '=' ∉ store.cookieName := fun hc => (cookieName_solid hname hc).2.2.2 rfl
  rw [Exchange.opened, extract_carries heq hcarries]
  simp only [hdecode, Option.getD_some]
  exact hs

/-- A session that is saved is given to the client in the cookie. -/
theorem receive_saved (hname : isCookieName store.cookieName = true) (response : (x.respond json hmac store codec).isSome = true)
    (hsave : (x.left json hmac store codec).shouldSave = true) (given : Option Given) :
    ∃ sum : Duration, systemTimeAdd x.surroundings.now store.maxAge = some sum ∧ x.receive json hmac store codec given = some
      ⟨(cookieText hmac store ((x.issue json hmac store codec).text json) sum.asSecs).toList, sum.asSecs⟩ := by
  have hresponse := response
  rw [Exchange.respond] at hresponse
  split at hresponse
  · rename_i hanswered
    simp only [hsave, if_true] at hresponse
    cases hencode : store.encode json hmac x.surroundings (x.left json hmac store codec) with
    | none =>
      rw [hencode] at hresponse
      cases hresponse
    | some encoded =>
      obtain ⟨sum, hsum, heq⟩ := Option.bind_eq_some_iff.mp hencode
      cases heq
      have hexpiry : store.expiresAt x.surroundings.now = some sum.asSecs := by
        rw [SignedCookieStore.expiresAt, hsum]
        rfl
      have hrespond : x.respond json hmac store codec =
          some (some (store.setCookieVal (cookieText hmac store ((x.issue json hmac store codec).text json) sum.asSecs))) := by
        rw [Exchange.respond, if_pos hanswered]
        simp only [hsave, if_true, hencode, Option.map_some]
        rw [if_pos (setCookieVal_header hname _ _)]
        rfl
      refine ⟨sum, hsum, ?_⟩
      rw [Exchange.receive, hrespond]
      simp only [hexpiry, givenValue_setCookieVal hname]
  · cases hresponse

/-- The cookie that the client is given can be sent in a header. -/
theorem receive_solid (hname : isCookieName store.cookieName = true) (response : (x.respond json hmac store codec).isSome = true)
    (hsave : (x.left json hmac store codec).shouldSave = true) (given : Option Given) :
    ∃ g sum, systemTimeAdd x.surroundings.now store.maxAge = some sum ∧
      x.receive json hmac store codec given = some g ∧ g.expiresAt = sum.asSecs ∧
      ∀ c ∈ g.value, 33 ≤ c.toNat ∧ c.toNat ≤ 126 ∧ c ≠ ';' := by
  obtain ⟨sum, hsum, hreceive⟩ := receive_saved hname response hsave given
  exact ⟨_, sum, hsum, hreceive, rfl, cookieText_solid _ _⟩

/-- A session that is saved can be read back from the cookie that the client gets. -/
theorem saved_holds (hname : isCookieName store.cookieName = true) (h : x.Follows json hmac store codec given)
    (hsave : (x.left json hmac store codec).shouldSave = true) :
    Holds json hmac store (x.receive json hmac store codec given) (x.left json hmac store codec).application := by
  obtain ⟨sum, -, hreceive⟩ := receive_saved hname h.response hsave given
  refine ⟨_, hreceive, fun now hlt => ⟨(x.issue json hmac store codec).restored json, ?_, rfl, rfl, ?_⟩⟩
  · have hread : json.fromSlice (Text.bytes ((x.issue json hmac store codec).text json)) = _ := h.readsBack hsave
    rw [decode_cookieText _ sum.asSecs_lt, if_neg (Nat.not_le.mpr hlt), hread]
    rfl
  · exact encoded_application _ _

/-- After an exchange the cookie of the client gives back what the handler has left. -/
theorem exchange_holds (hname : isCookieName store.cookieName = true) (h : x.Follows json hmac store codec given)
    (holds : given = none ∨ Holds json hmac store given data) :
    Holds json hmac store (x.receive json hmac store codec given) (x.left json hmac store codec).application := by
  cases hsave : (x.left json hmac store codec).shouldSave with
  | true => exact saved_holds hname h hsave
  | false =>
    obtain ⟨hmodified, hnew⟩ := Bool.or_eq_false_iff.mp hsave
    have hleft : x.left json hmac store codec = x.opened json hmac store := runCalls_unmodified hmodified
    rcases holds with rfl | holds
    · rw [hleft, opened_first h] at hnew
      cases hnew
    · have hrespond : x.respond json hmac store codec = some none := by
        have hresponse := h.response
        rw [Exchange.respond] at hresponse ⊢
        split at hresponse
        · rename_i hanswered
          simp only [hanswered, hsave, if_true, Bool.false_eq_true, if_false]
        · cases hresponse
      have hreceive : x.receive json hmac store codec given = given := by
        rw [Exchange.receive, hrespond]
      rw [hreceive, hleft, (opened_holds hname h.sent holds).2.2]
      exact holds

theorem left_messages : (x.left json hmac store codec).messages codec =
    x.calls.foldl (fun pending call => call.due codec pending) ((x.opened json hmac store).messages codec) :=
  runCalls_messages

/-- An inner service that answers gets its response sent, as long as the expiry does not overflow. -/
theorem respond_isSome (answered : x.answered = true)
    (htime : (systemTimeAdd x.surroundings.now store.maxAge).isSome = true) :
    (x.respond json hmac store codec).isSome = true := by
  obtain ⟨sum, hsum⟩ := Option.isSome_iff_exists.mp htime
  rw [Exchange.respond, if_pos answered]
  simp only [SignedCookieStore.encode, hsum]
  split <;> rfl

/-- The takes of an exchange deliver what is due when it starts. -/
theorem deliveries_cons {xs : List (Exchange V)} (hrest : deliveries json hmac store codec xs =
    dueDeliveries codec ((x.left json hmac store codec).messages codec) (xs.flatMap (·.calls))) :
    deliveries json hmac store codec (x :: xs) =
      dueDeliveries codec ((x.opened json hmac store).messages codec) ((x :: xs).flatMap (·.calls)) := by
  have hfirst : x.delivered json hmac store codec =
    dueDeliveries codec ((x.opened json hmac store).messages codec) x.calls := runCalls_delivered
  rw [left_messages] at hrest
  rw [deliveries, List.flatMap_cons, hfirst, List.flatMap_cons, dueDeliveries_append, ← hrest, deliveries]

/-- What follows an exchange goes on from what its handler has left. -/
theorem conversation_from (hname : isCookieName store.cookieName = true) (x : Exchange V) (xs : List (Exchange V))
    (holds : Holds json hmac store given (x.left json hmac store codec).application)
    (h : Conversation json hmac store codec given xs) :
    Continuous json hmac store codec (x :: xs) ∧
      deliveries json hmac store codec xs =
        dueDeliveries codec ((x.left json hmac store codec).messages codec) (xs.flatMap (·.calls)) := by
  induction xs generalizing x given with
  | nil => exact ⟨List.isChain_singleton x, rfl⟩
  | cons y ys ih =>
    obtain ⟨hy, hys⟩ := h
    have hopened := (opened_holds hname hy.sent holds).2.2
    obtain ⟨hchain, hdelivered⟩ := ih y (exchange_holds hname hy (.inr holds)) hys
    refine ⟨List.isChain_cons_cons.mpr ⟨hopened, hchain⟩, ?_⟩
    rw [deliveries_cons hdelivered, messages_congr hopened]

end Exchanges

/-- Each handler of a conversation finds what the one before it has left, and each take delivers the messages that are
    due, in their order. -/
theorem session_continuity {V : Type} (json : SerdeJson V) (hmac : List UInt8 → List UInt8 → List UInt8)
    (store : SignedCookieStore) (codec : MessageCodec V) (hname : isCookieName store.cookieName = true)
    (xs : List (Exchange V)) (h : Conversation json hmac store codec none xs) :
    Continuous json hmac store codec xs ∧
      deliveries json hmac store codec xs = dueDeliveries codec [] (xs.flatMap (·.calls)) := by
  cases xs with
  | nil => exact ⟨List.isChain_nil, rfl⟩
  | cons x xs =>
    obtain ⟨hx, hxs⟩ := h
    have holds := @exchange_holds V json hmac store codec x none ∅ hname hx (.inl rfl)
    obtain ⟨hchain, hdelivered⟩ := conversation_from hname x xs holds hxs
    refine ⟨hchain, ?_⟩
    rw [deliveries_cons hdelivered, opened_first hx, newEmpty_messages]

/-! ### A header with one cookie -/

/-- The bytes of a text in ASCII. -/
def asciiBytes (text : List Char) : List UInt8 := text.map fun c => UInt8.ofNat c.toNat

theorem toStr_asciiBytes {text : List Char} (h : ∀ c ∈ text, 33 ≤ c.toNat ∧ c.toNat ≤ 126) :
    Http.toStr (asciiBytes text) = some text := by
  have hnat {c : Char} (hc : c ∈ text) : (UInt8.ofNat c.toNat).toNat = c.toNat := by
    have := (h c hc).2
    rw [UInt8.toNat_ofNat', Nat.mod_eq_of_lt (by omega)]
  have hvisible : (asciiBytes text).all Http.isVisibleAscii = true := by
    refine List.all_eq_true.mpr (List.forall_mem_map.mpr fun c hc => ?_)
    have hrange := h c hc
    simp only [Http.isVisibleAscii, UInt8.le_iff_toNat_le, UInt8.lt_iff_toNat_lt, hnat hc, Bool.or_eq_true, Bool.and_eq_true,
      decide_eq_true_eq]
    exact .inr ⟨Nat.le_trans (by decide) hrange.1, Nat.lt_of_le_of_lt hrange.2 (by decide)⟩
  have hback : (asciiBytes text).map (fun byte => Char.ofNat byte.toNat) = text := by
    rw [asciiBytes, List.map_map]
    refine (List.map_congr_left fun c hc => ?_).trans (List.map_id text)
    rw [Function.comp_apply, hnat hc, Char.ofNat_toNat]
    rfl
  rw [Http.toStr, if_pos hvisible, hback]

/-- A header with the cookie alone carries it. -/
theorem carries_alone {value : List Char} (hname : isCookieName store.cookieName = true)
    (hvalue : ∀ c ∈ value, 33 ≤ c.toNat ∧ c.toNat ≤ 126 ∧ c ≠ ';') :
    Carries store.cookieName value [("cookie".toList, asciiBytes (store.cookieName ++ '=' :: value))] := by
  have hsolid : ∀ c ∈ store.cookieName ++ '=' :: value, 33 ≤ c.toNat ∧ c.toNat ≤ 126 ∧ c ≠ ';' := by
    simp only [List.forall_mem_append, List.forall_mem_cons]
    exact ⟨fun c hc => have h := cookieName_solid hname hc; ⟨h.1, h.2.1, h.2.2.1⟩, by decide, hvalue⟩
  have hspace : ∀ c ∈ store.cookieName ++ '=' :: value, Text.isWhitespace c = false := by
    intro c hc
    obtain ⟨hlow, hhigh, -⟩ := hsolid c hc
    simp only [Text.isWhitespace, Bool.or_eq_false_iff, Bool.and_eq_false_iff, decide_eq_false_iff_not, beq_eq_false_iff_ne]
    omega
  have hone : (store.cookieName ++ '=' :: value).splitOn ';' = [store.cookieName ++ '=' :: value] :=
    List.splitOn_eq_singleton fun hmem => (hsolid ';' hmem).2.2 rfl
  refine ⟨[], _, [], _, rfl, fun _ h => absurd h List.not_mem_nil, toStr_asciiBytes fun c hc => ?_, [], _, [], hone,
    fun _ h => absurd h List.not_mem_nil, Text.trim_of_solid hspace⟩
  exact ⟨(hsolid c hc).1, (hsolid c hc).2.1⟩

/-! ### A conversation -/

def Level.name : Level → List Char
  | .debug => "Debug".toList
  | .info => "Info".toList
  | .success => "Success".toList
  | .warning => "Warning".toList
  | .error => "Error".toList

def levels : List Level := [.debug, .info, .success, .warning, .error]

theorem find_level (level : Level) : levels.find? (·.name == level.name) = some level := by
  cases level <;> decide

def messageObject (message : Message) : Json Empty :=
  .object [("level".toList, .string message.level.name), ("text".toList, .string message.text)]

def readMessage : Json Empty → Option Message
  | .object [(_, .string level), (_, .string text)] => (levels.find? (·.name == level)).map (⟨·, text⟩)
  | _ => none

/-- Messages as an array of objects. -/
def messageCodec : MessageCodec (Json Empty) where
  toValue messages := .array (messages.map messageObject)
  fromValue
    | .array items => items.mapM readMessage
    | _ => none
  fromValue_toValue messages := by
    have hread (message : Message) : readMessage (messageObject message) = some message := by
      simp [readMessage, messageObject, find_level]
    induction messages with
    | nil => rfl
    | cons message messages ih => simp_all

/-- The key of a session for which the random bytes are zero. -/
def zeroKey : Json Empty := .string (generateSessionKey (List.replicate 16 0))

def hello : Message := ⟨.info, "hello".toList⟩

theorem epoch_lt : 0 < 2 ^ 64 * 10 ^ 9 := by decide

def epoch : Duration := ⟨0, epoch_lt⟩

theorem twoWeeks_sum : systemTimeAdd epoch twoWeeks.maxAge = some twoWeeks.maxAge := rfl

theorem twoWeeks_isSome : (systemTimeAdd epoch twoWeeks.maxAge).isSome = true := congrArg Option.isSome twoWeeks_sum

/-- A request without cookies, whose session is saved as these entries. -/
def visit (calls : List (SessionCall (Json Empty))) (entries : List (List Char × Json Empty)) : Exchange (Json Empty) where
  headers := []
  decodedAt := epoch
  random := List.replicate 16 0
  calls := calls
  answered := true
  surroundings := ⟨epoch, [], fun _ => entries⟩

theorem visit_follows {calls : List (SessionCall (Json Empty))} {entries : List (List Char × Json Empty)}
    (hread : (parsed (printed (.object entries))).bind objectData =
      some (((visit calls entries).issue integerJson Sha256.hmac twoWeeks messageCodec).encoded integerJson).data) :
    (visit calls entries).Follows integerJson Sha256.hmac twoWeeks messageCodec none := by
  refine ⟨fun _ header hheader => absurd hheader List.not_mem_nil, nofun, respond_isSome rfl twoWeeks_isSome, fun _ => ?_⟩
  have htext : ((visit calls entries).issue integerJson Sha256.hmac twoWeeks messageCodec).text integerJson =
    integerJson.toText entries := rfl
  rw [Issue.ReadsBack, htext, fromSlice_toText, hread]

def greetingEntries : List (List Char × Json Empty) :=
  [(messagesKey, messageCodec.toValue [hello]), (sessionKey, zeroKey)]

set_option maxRecDepth 4000 in
theorem greeting_parsed : parsed (printed (.object greetingEntries)) = some (.object greetingEntries) := rfl

/-- The handler adds a message. -/
def greeting : Exchange (Json Empty) := visit [.add hello] greetingEntries

theorem greeting_follows : greeting.Follows integerJson Sha256.hmac twoWeeks messageCodec none := by
  refine visit_follows ?_
  rw [greeting_parsed]
  rfl

/-- The cookie comes back, and the handler does nothing. -/
def idle (g : Given) : Exchange (Json Empty) where
  headers := [("cookie".toList, asciiBytes (twoWeeks.cookieName ++ '=' :: g.value))]
  decodedAt := epoch
  random := []
  calls := []
  answered := true
  surroundings := ⟨epoch, [], fun _ => []⟩

theorem idle_follows {g : Given} {data : Data (Json Empty)} (holds : Holds integerJson Sha256.hmac twoWeeks (some g) data)
    (hvalue : ∀ c ∈ g.value, 33 ≤ c.toNat ∧ c.toNat ≤ 126 ∧ c ≠ ';') (halive : epoch.asSecs < g.expiresAt) :
    (idle g).Follows integerJson Sha256.hmac twoWeeks messageCodec (some g) := by
  have hname : isCookieName twoWeeks.cookieName = true := by decide
  have sent : ∀ g', some g = some g' → Carries twoWeeks.cookieName g'.value (idle g).headers ∧
      (idle g).decodedAt.asSecs < g'.expiresAt := by
    rintro _ ⟨⟩
    exact ⟨carries_alone hname hvalue, halive⟩
  obtain ⟨hmodified, hnew, -⟩ := opened_holds hname sent holds
  refine ⟨nofun, sent, respond_isSome rfl twoWeeks_isSome, fun hsaved => ?_⟩
  have hunsaved : ((idle g).left integerJson Sha256.hmac twoWeeks messageCodec).shouldSave = false :=
    Bool.or_eq_false_iff.mpr ⟨hmodified, hnew⟩
  rw [hunsaved] at hsaved
  cases hsaved

/-- The second handler finds what the first one has left. -/
theorem greeting_continues : ∃ g, Continuous integerJson Sha256.hmac twoWeeks messageCodec [greeting, idle g] ∧
    deliveries integerJson Sha256.hmac twoWeeks messageCodec [greeting, idle g] =
      dueDeliveries messageCodec [] ([greeting, idle g].flatMap (·.calls)) := by
  have hname : isCookieName twoWeeks.cookieName = true := by decide
  have hsave : (greeting.left integerJson Sha256.hmac twoWeeks messageCodec).shouldSave = true := rfl
  obtain ⟨g, sum, hsum, hreceive, hexpires, hvalue⟩ := receive_solid hname greeting_follows.response hsave none
  cases twoWeeks_sum.symm.trans hsum
  have holds := saved_holds hname greeting_follows hsave
  rw [hreceive] at holds
  have halive : epoch.asSecs < g.expiresAt := by
    rw [hexpires]
    decide
  have hidle := idle_follows holds hvalue halive
  refine ⟨g, session_continuity integerJson Sha256.hmac twoWeeks messageCodec hname _ ⟨greeting_follows, ?_, trivial⟩⟩
  rw [hreceive]
  exact hidle

/-- The handler adds a message, clears the session and takes the messages. -/
def forgetful : Exchange (Json Empty) :=
  visit [.add hello, .clear (List.replicate 16 0), .take] [(sessionKey, zeroKey)]

set_option maxRecDepth 4000 in
theorem zeroKey_parsed : parsed (printed (.object [(sessionKey, zeroKey)])) = some (.object [(sessionKey, zeroKey)]) := rfl

theorem forgetful_follows : forgetful.Follows integerJson Sha256.hmac twoWeeks messageCodec none := by
  refine visit_follows ?_
  rw [zeroKey_parsed]
  rfl

/-- A message that is cleared with the session is not delivered. -/
theorem hello_dropped : ¬∀ xs, Conversation integerJson Sha256.hmac twoWeeks messageCodec none xs →
    Continuous integerJson Sha256.hmac twoWeeks messageCodec xs ∧
      deliveries integerJson Sha256.hmac twoWeeks messageCodec xs = owedDeliveries [] (xs.flatMap (·.calls)) := by
  intro h
  obtain ⟨-, hdelivered⟩ := h [forgetful] ⟨forgetful_follows, trivial⟩
  have htaken : deliveries integerJson Sha256.hmac twoWeeks messageCodec [forgetful] = [[]] := rfl
  have howed : owedDeliveries [] ([forgetful].flatMap (·.calls)) = [[hello]] := rfl
  rw [htaken, howed] at hdelivered
  cases hdelivered

end Djangors.Sessions
