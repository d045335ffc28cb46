import Djangors.Http.Errors

/-! # What error responses reveal

With `debug = false`, a failure of a handler is hidden on the page that `dispatch_debug` and `dispatch_boxed` answer with.
The JSON envelope and the text of `dispatch` carry its message. -/

namespace Djangors.Http

/-! ### Apps whose handlers fail -/

/-- A handler fails with an internal message or with a panic. -/
inductive Failure where
  | internal (message : List Char)
  | panicked (payload : Option (List Char))

namespace Failure

def task {R : Type} : Failure → TaskResult R
  | internal message => .done (.error (.internal message))
  | panicked payload => .panicked payload

def error : Failure → DjangorsError
  | internal message => .internal message
  | panicked payload => .panicked (payload.getD "unknown panic message".toList)

theorem joined_task {R : Type} (failure : Failure) : (failure.task : TaskResult R).joined = .error failure.error := by
  cases failure <;> rfl

theorem statusCode (failure : Failure) : failure.error.statusCode = 500 := by
  cases failure <;> rfl

end Failure

section Failing
variable {H : Type}

def Route.withHandler (route : Route H) (handler : H) : Route H := { route with handler := handler }

theorem names_withHandler (handler : H → H) (routes : List (Route H)) :
    (routes.map fun route => route.withHandler (handler route.handler)).filterMap (·.name) = routes.filterMap (·.name) := by
  rw [List.filterMap_map]
  rfl

/-- A router with other handlers. -/
def Router.withHandlers (router : Router H) (handler : H → H) : Router H where
  routes := router.routes.map fun route => route.withHandler (handler route.handler)
  names := (names_withHandler handler router.routes).symm ▸ router.names

/-- Handlers do not matter for what a path selects. -/
theorem matchPath_withHandlers (router : Router H) (handler : H → H) (path : List Char) (method : Method) :
    (router.withHandlers handler).matchPath path method = router.matchPath path method := by
  rw [Router.matchPath, Router.withHandlers, List.zipIdx_map, List.findSome?_map]
  rfl

end Failing

def HandlerKind.failing (failure : Failure) :
    HandlerKind (Handler Response) (Handler StreamingResponse) → HandlerKind (Handler Response) (Handler StreamingResponse)
  | .standard _ => .standard fun _ _ => failure.task
  | .streaming _ => .streaming fun _ _ => failure.task

/-- The routes of an app, with handlers that fail. -/
def App.failing (app : App) (failure : Failure) : App := app.withHandlers (HandlerKind.failing failure)

/-- A handler is called for a request: its body is read, it passes the pending check, and a route matches. -/
def App.CallsHandler (app : App) (parseForm : List UInt8 → Option (List Char → Option (List Char))) (hyper : HyperRequest) :
    Prop :=
  ∃ body, hyper.body = .ok body ∧
    pendingCheckFails parseForm ⟨hyper.method, hyper.path, hyper.headers, hyper.extensions, body⟩ = false ∧
    (app.matchPath hyper.path hyper.method).isSome

/-- The `Accept` header of a request asks for JSON. -/
def HyperRequest.AcceptsJson (hyper : HyperRequest) : Prop :=
  ∃ value accept, hyper.headers.get "accept".toList = some value ∧ toStr value = some accept ∧
    "application/json".toList <:+: accept

section Replies
variable {parseForm : List UInt8 → Option (List Char → Option (List Char))} {app : App} {hyper : HyperRequest}
  {env : Rendering} {req : Request} {failure : Failure}

theorem handleDispatch_failing (h : (app.matchPath req.path req.method).isSome) :
    ((app.failing failure).handleDispatch req).2 = .error failure.error := by
  obtain ⟨⟨idx, params⟩, hmatch⟩ := Option.isSome_iff_exists.mp h
  have hroute : ∃ route, app.routes[idx]? = some route := by
    rw [Router.matchPath, List.findSome?_eq_some_iff] at hmatch
    obtain ⟨before, ⟨route, i⟩, after, hsplit, hat, -⟩ := hmatch
    obtain ⟨found, -, hfound⟩ := Option.map_eq_some_iff.mp hat
    have hmem : (route, i) ∈ app.routes.zipIdx := by simp [hsplit]
    have hidx : i = idx := congrArg Prod.fst hfound
    rw [List.mem_zipIdx_iff_getElem?, hidx] at hmem
    exact ⟨route, hmem⟩
  obtain ⟨route, hroute⟩ := hroute
  have hfailing : (app.failing failure).routes[idx]? = some (route.withHandler (route.handler.failing failure)) := by
    rw [App.failing, Router.withHandlers, List.getElem?_map, hroute]
    rfl
  have hmatch' : (app.failing failure).matchPath req.path req.method = some (idx, params) := by
    rw [App.failing, matchPath_withHandlers, hmatch]
  rw [App.handleDispatch, hmatch', Option.bind_some, hfailing]
  cases hhandler : route.handler with
  | standard _ | streaming _ =>
    simp only [Option.map_some, Route.withHandler, HandlerKind.failing, Failure.joined_task]
    rfl

theorem handle_failing (h : (app.matchPath req.path req.method).isSome) :
    ((app.failing failure).handle req).2 = .error failure.error := by
  have hdispatch := @handleDispatch_failing app req failure h
  rw [App.handle]
  generalize (app.failing failure).handleDispatch req = result at hdispatch
  obtain ⟨events, res⟩ := result
  dsimp only at hdispatch ⊢
  rw [hdispatch]
  rfl

/-! ### What is hidden -/

/-- A failure is rendered with its status alone, unless JSON or text is answered. -/
theorem render_failing (hnone : env.renderer = none) (hjson : failure.error.prefersJson req = false) :
    failure.error.render env req false = DjangorsError.productionErrorPage env 500 := by
  rw [DjangorsError.render, hnone]
  dsimp only
  rw [hjson, failure.statusCode]
  rfl

theorem prefersJson_failing : failure.error.prefersJson req =
    ((req.header "accept").bind toStr).any fun accept => decide ("application/json".toList <:+: accept) := by
  cases failure <;> rfl

theorem prefersJson_iff (body : List UInt8) :
    failure.error.prefersJson ⟨hyper.method, hyper.path, hyper.headers, hyper.extensions, body⟩ = true ↔ hyper.AcceptsJson := by
  rw [prefersJson_failing, Option.any_eq_true]
  simp only [Option.bind_eq_some_iff, decide_eq_true_eq, Request.header]
  constructor
  · rintro ⟨accept, ⟨value, hvalue, haccept⟩, hjson⟩
    exact ⟨value, accept, hvalue, haccept, hjson⟩
  · rintro ⟨value, accept, hvalue, haccept, hjson⟩
    exact ⟨accept, ⟨value, hvalue, haccept⟩, hjson⟩

theorem ofContent_ne {status : Nat} {contentType : String} {a b : List Char} (h : a.length ≠ b.length) :
    Response.ofContent status contentType a ≠ Response.ofContent status contentType b := by
  intro heq
  have hbody := congrArg (fun response : Response => Text.ofBytes? response.body) heq
  rw [Response.ofContent, Response.ofContent, Text.ofBytes?_bytes, Text.ofBytes?_bytes, Option.some_inj] at hbody
  exact h (congrArg List.length (String.ofList_injective hbody))

/-- The text and the JSON of an internal error carry its message. -/
theorem textResponse_ne : (DjangorsError.internal []).textResponse env ≠ (DjangorsError.internal ['x']).textResponse env := by
  refine ofContent_ne fun hlength => ?_
  rw [List.length_append, List.length_append] at hlength
  cases Nat.add_left_cancel hlength

theorem length_quote_ne (start rest last : List Char) :
    (start ++ Json.quote [] ++ rest ++ last).length ≠ (start ++ Json.quote ['x'] ++ rest ++ last).length := by
  have hempty : (Json.quote []).length = 2 := rfl
  have hx : (Json.quote ['x']).length = 3 := rfl
  simp only [List.length_append, hempty, hx]
  omega

theorem intoJsonResponse_ne :
    (DjangorsError.internal []).intoJsonResponse env ≠ (DjangorsError.internal ['x']).intoJsonResponse env := by
  rw [DjangorsError.intoJsonResponse, DjangorsError.intoJsonResponse, Response.json, Response.json]
  exact ofContent_ne (length_quote_ne _ _ _)

/-! ### Complete responses -/

/-- What a called handler that fails is answered with. -/
theorem respond_failing (hnone : env.renderer = none) {body : List UInt8} (hbody : hyper.body = .ok body)
    (hpending : pendingCheckFails parseForm ⟨hyper.method, hyper.path, hyper.headers, hyper.extensions, body⟩ = false)
    (hmatch : (app.matchPath hyper.path hyper.method).isSome) (dispatcher : Dispatcher) :
    dispatcher.respond env parseForm (app.failing failure) hyper = .standard
      (if failure.error.prefersJson ⟨hyper.method, hyper.path, hyper.headers, hyper.extensions, body⟩ then
        failure.error.intoJsonResponse env
      else if dispatcher = .dispatch then failure.error.textResponse env
      else DjangorsError.productionErrorPage env 500) := by
  cases dispatcher with
  | dispatch =>
    rw [Dispatcher.respond, App.dispatch, dispatchWith, hbody]
    dsimp only
    rw [if_neg (by simp [hpending]), Prod.map_snd, handle_failing hmatch]
    simp [Except.map, Reply.respond, DjangorsError.renderBasic, hnone]
  | dispatchDebug =>
    rw [Dispatcher.respond, App.dispatchDebug, dispatchWith, hbody]
    dsimp only
    rw [if_neg (by simp [hpending]), Prod.map_snd, handle_failing hmatch]
    simp [Except.map, Reply.respond, DjangorsError.render, hnone, failure.statusCode]
  | dispatchBoxed =>
    rw [Dispatcher.respond, App.dispatchBoxed, dispatchWith, hbody]
    dsimp only
    rw [if_neg (by simp [hpending]), handleDispatch_failing hmatch]
    simp [Reply.respond, DjangorsError.render, hnone, failure.statusCode]

/-- Where no handler is called, handlers do not matter. -/
theorem respond_uncalled (hcalls : ¬app.CallsHandler parseForm hyper) (dispatcher : Dispatcher) (failure' : Failure) :
    dispatcher.respond env parseForm (app.failing failure) hyper =
      dispatcher.respond env parseForm (app.failing failure') hyper := by
  match hbody : hyper.body with
  | .error e =>
    cases dispatcher <;>
      simp only [Dispatcher.respond, App.dispatch, App.dispatchDebug, App.dispatchBoxed, dispatchWith, hbody]
  | .ok body =>
    by_cases hpending : pendingCheckFails parseForm ⟨hyper.method, hyper.path, hyper.headers, hyper.extensions, body⟩ = true
    · cases dispatcher <;>
        simp only [Dispatcher.respond, App.dispatch, App.dispatchDebug, App.dispatchBoxed, dispatchWith, hbody, hpending, if_true]
    · have hmatch : app.matchPath hyper.path hyper.method = none := by
        by_contra hsome
        exact hcalls ⟨body, hbody, eq_false_of_ne_true hpending, Option.isSome_iff_ne_none.mpr hsome⟩
      have hrefused : ∀ failure : Failure, (app.failing failure).handleDispatch
          ⟨hyper.method, hyper.path, hyper.headers, hyper.extensions, body⟩ =
            ([.requestStarted hyper.method hyper.path, .requestFinished hyper.method hyper.path 404], .error .notFound) := by
        intro failure
        rw [App.handleDispatch, App.failing, matchPath_withHandlers, hmatch]
        rfl
      cases dispatcher <;>
        simp only [Dispatcher.respond, App.dispatch, App.dispatchDebug, App.dispatchBoxed, dispatchWith, hbody, hpending,
          Bool.false_eq_true, if_false, App.handle, hrefused]

end Replies

/-- With `debug = false`, what a handler fails with is hidden unless `dispatch` answers or the request accepts JSON. -/
theorem errors_hidden_iff {env : Rendering} (hnone : env.renderer = none)
    (parseForm : List UInt8 → Option (List Char → Option (List Char))) (dispatcher : Dispatcher) (app : App)
    (hyper : HyperRequest) :
    ((∀ m₁ m₂, dispatcher.respond env parseForm (app.failing (.internal m₁)) hyper =
        dispatcher.respond env parseForm (app.failing (.internal m₂)) hyper) ∧
      ∀ p₁ p₂, dispatcher.respond env parseForm (app.failing (.panicked p₁)) hyper =
        dispatcher.respond env parseForm (app.failing (.panicked p₂)) hyper) ↔
      (app.CallsHandler parseForm hyper → dispatcher ≠ .dispatch ∧ ¬hyper.AcceptsJson) := by
  constructor
  · rintro ⟨hsame, -⟩ ⟨body, hbody, hpending, hmatch⟩
    have hresponses := hsame [] ['x']
    rw [respond_failing hnone hbody hpending hmatch, respond_failing hnone hbody hpending hmatch] at hresponses
    by_cases hjson : hyper.AcceptsJson
    · rw [if_pos ((prefersJson_iff body).mpr hjson), if_pos ((prefersJson_iff body).mpr hjson)] at hresponses
      exact absurd (ResponseKind.standard.inj hresponses) intoJsonResponse_ne
    · rw [if_neg (mt (prefersJson_iff body).mp hjson), if_neg (mt (prefersJson_iff body).mp hjson)] at hresponses
      refine ⟨fun hdispatch => ?_, hjson⟩
      rw [if_pos hdispatch, if_pos hdispatch] at hresponses
      exact absurd (ResponseKind.standard.inj hresponses) textResponse_ne
  · intro hhidden
    suffices hall : ∀ f₁ f₂ : Failure, dispatcher.respond env parseForm (app.failing f₁) hyper =
        dispatcher.respond env parseForm (app.failing f₂) hyper from
      ⟨fun m₁ m₂ => hall (.internal m₁) (.internal m₂), fun p₁ p₂ => hall (.panicked p₁) (.panicked p₂)⟩
    intro f₁ f₂
    by_cases hcalls : app.CallsHandler parseForm hyper
    · obtain ⟨hpage, hjson⟩ := hhidden hcalls
      obtain ⟨body, hbody, hpending, hmatch⟩ := hcalls
      rw [respond_failing hnone hbody hpending hmatch, respond_failing hnone hbody hpending hmatch,
        if_neg (mt (prefersJson_iff body).mp hjson), if_neg (mt (prefersJson_iff body).mp hjson), if_neg hpage, if_neg hpage]
    · exact respond_uncalled hcalls dispatcher f₂

/-- An app with one route, and a request for it. -/
def pageApp : App := Router.route .new ['a'] .get (.standard fun _ _ => .done (.error .notFound))

def pageRequest (headers : HeaderMap) : HyperRequest := ⟨.get, ['/', 'a'], headers, ⟨none, none⟩, .ok []⟩

def plainRendering : Rendering := ⟨none, fun _ _ => ⟨500, [], []⟩, fun _ => none, fun _ => none⟩

/-- The page of `dispatch_boxed` hides a message. -/
theorem page_hidden :
    Dispatcher.dispatchBoxed.respond plainRendering (fun _ => none) (pageApp.failing (.internal [])) (pageRequest []) =
      Dispatcher.dispatchBoxed.respond plainRendering (fun _ => none) (pageApp.failing (.internal ['x'])) (pageRequest []) := by
  refine ((errors_hidden_iff rfl _ _ _ _).mpr fun _ => ⟨by decide, ?_⟩).1 [] ['x']
  rintro ⟨_, _, hvalue, -, -⟩
  cases hvalue

/-- `dispatch` answers with the message of an internal error. -/
theorem message_revealed :
    ¬∀ (env : Rendering) (parseForm : List UInt8 → Option (List Char → Option (List Char))) (dispatcher : Dispatcher)
      (app : App) (hyper : HyperRequest), env.renderer = none → ∀ m₁ m₂,
        dispatcher.respond env parseForm (app.failing (.internal m₁)) hyper =
          dispatcher.respond env parseForm (app.failing (.internal m₂)) hyper := by
  intro hall
  have hsame := hall plainRendering (fun _ => none) .dispatch pageApp (pageRequest []) rfl [] ['x']
  have hmatch : (pageApp.matchPath ['/', 'a'] .get).isSome := by decide
  rw [respond_failing rfl rfl rfl hmatch, respond_failing rfl rfl rfl hmatch] at hsame
  exact @textResponse_ne plainRendering (ResponseKind.standard.inj hsame)

end Djangors.Http
