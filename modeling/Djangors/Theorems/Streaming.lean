import Djangors.Http.Dispatch
import Djangors.Lib.EventStream
import Djangors.Lib.Utf8

/-! # Server-sent events read back

A stream of items is read back exactly when every item is one line. -/

namespace Djangors.Http
open EventStream (newlines lines dispatch messages OneLine)

theorem sse_body (items : List String) :
    (StreamingResponse.sse items).body = Text.bytes (String.ofList (items.flatMap fun item => (sseChunk item).toList)) := by
  induction items with
  | nil => rfl
  | cons item items ih =>
    rw [List.flatMap_cons, Text.bytes_ofList, List.flatMap_append, ← Text.bytes_ofList, ← Text.bytes_ofList, ← ih,
      String.ofList_toList]
    rfl

theorem sseChunk_toList (item : String) : (sseChunk item).toList = "data: ".toList ++ item.toList ++ ['\n', '\n'] := by
  simp [sseChunk]

/-- The frame names its field, in front of the first line of the item. -/
theorem splitOn_frame (text : List Char) :
    ∃ first more, text.splitOn '\n' = first :: more ∧
      ("data: ".toList ++ text).splitOn '\n' = ("data: ".toList ++ first) :: more := by
  induction text using Text.splitOn_induct '\n' with
  | piece l hl =>
    refine ⟨l, [], List.splitOn_eq_singleton hl, List.splitOn_eq_singleton ?_⟩
    simpa using hl
  | more l r hl _ =>
    have hframe : '\n' ∉ "data: ".toList ++ l := by simpa using hl
    refine ⟨l, r.splitOn '\n', ?_, ?_⟩
    · rw [List.splitOn_append_cons_self, List.splitOn_eq_singleton hl, List.singleton_append]
    · rw [← List.append_assoc, List.splitOn_append_cons_self, List.splitOn_eq_singleton hframe, List.singleton_append]

theorem readField_frame (first : List Char) : EventStream.readField none ("data: ".toList ++ first) = some first := by
  simp [EventStream.readField]

/-- What a frame is read as: at least one message, which is the item only if the item is one line. -/
theorem messages_frame (item : String) (rest : List Char) :
    ∃ message more, messages ((sseChunk item).toList ++ rest) = message :: more ++ messages rest ∧
      (message = newlines item.toList → OneLine item.toList) ∧
      (OneLine item.toList → message = item.toList ∧ more = []) := by
  obtain ⟨body, hbody, hitem⟩ := EventStream.newlines_concat_lf item.toList
  have hframe : newlines (("data: ".toList ++ item.toList) ++ ['\n']) = ("data: ".toList ++ body) ++ ['\n'] := by
    rw [List.append_assoc, List.append_assoc, ← hbody]
    simp [newlines]
  obtain ⟨first, more, hsplit, hsplitFrame⟩ := splitOn_frame body
  have hlines : lines ((sseChunk item).toList ++ rest) = ("data: ".toList ++ first) :: more ++ [] :: lines rest := by
    rw [sseChunk_toList, List.append_assoc, List.cons_append, List.cons_append, List.nil_append,
      EventStream.lines_append hframe, EventStream.lines_cons_lf, hsplitFrame]
  have hnonempty : "data: ".toList ++ first ≠ [] := by simp
  obtain ⟨message, others, hdispatch, hlength⟩ := EventStream.dispatch_some first more
  have hsum := EventStream.sum_splitOn body
  rw [hsplit, List.map_cons, List.sum_cons] at hsum
  refine ⟨message, others, ?_, ?_, ?_⟩
  · rw [messages, hlines, EventStream.dispatch_append_blank, List.cons_append, dispatch, if_neg hnonempty,
      readField_frame, hdispatch]
    rfl
  · intro heq
    have hlen := congrArg List.length heq
    rcases hitem with rfl | hitem
    · have hmore : more = [] := List.length_eq_zero_iff.mp (by omega)
      apply EventStream.oneLine_of_newlines
      intro hmem
      obtain ⟨l, r, hlr⟩ := List.append_of_mem hmem
      rw [hlr, List.splitOn_append_cons_self, hmore] at hsplit
      have hcount := congrArg List.length hsplit
      have hl := List.length_pos_iff.mpr (List.splitOn_ne_nil '\n' l)
      have hr := List.length_pos_iff.mpr (List.splitOn_ne_nil '\n' r)
      rw [List.length_append, List.length_singleton] at hcount
      omega
    · have hlonger := congrArg List.length hitem
      rw [List.length_append, List.length_singleton] at hlonger
      omega
  · intro hline
    have hplain : newlines item.toList = item.toList := EventStream.newlines_oneLine hline
    have hbodyItem : body = item.toList := by
      rcases hitem with h | h
      · rw [h, hplain]
      · refine absurd ?_ hline.2
        rw [← hplain, ← h]
        simp
    rw [hbodyItem, List.splitOn_eq_singleton hline.2, List.cons.injEq] at hsplit
    rw [← hsplit.1, ← hsplit.2] at hdispatch
    obtain ⟨hmessage, hothers⟩ := List.cons.inj hdispatch
    exact ⟨hmessage.symm, hothers.symm⟩

theorem messages_frames (items : List String) :
    messages (items.flatMap fun item => (sseChunk item).toList) = items.map (fun item => newlines item.toList) ↔
      ∀ item ∈ items, OneLine item.toList := by
  induction items with
  | nil => exact iff_of_true rfl (by simp)
  | cons item items ih =>
    obtain ⟨message, more, hmessages, honly, hline⟩ := messages_frame item (items.flatMap fun item => (sseChunk item).toList)
    rw [List.flatMap_cons, hmessages, List.map_cons, List.cons_append, List.cons.injEq, List.forall_mem_cons, ← ih]
    constructor
    · rintro ⟨hmessage, hrest⟩
      obtain ⟨-, rfl⟩ := hline (honly hmessage)
      exact ⟨honly hmessage, hrest⟩
    · rintro ⟨hitem, hrest⟩
      obtain ⟨rfl, rfl⟩ := hline hitem
      exact ⟨(EventStream.newlines_oneLine hitem).symm, hrest⟩

/-- A stream of events is read back as its items, with their ends of lines as LF, exactly when every item is one line. -/
theorem sse_read_iff (items : List String) :
    EventStream.read (StreamingResponse.sse items).body = some (items.map fun item => newlines item.toList) ↔
      ∀ item ∈ items, OneLine item.toList := by
  rw [sse_body, EventStream.read, Text.ofBytes?_bytes, Option.map_some, Option.some_inj, String.toList_ofList]
  exact messages_frames items

/-- Of two lines only the first arrives. -/
theorem two_lines_lost : EventStream.read (StreamingResponse.sse ["first\nsecond"]).body = some ["first".toList] ∧
    EventStream.read (StreamingResponse.sse ["first\nsecond"]).body ≠
      some (["first\nsecond"].map fun item => newlines item.toList) := by
  have hread : EventStream.read (StreamingResponse.sse ["first\nsecond"]).body = some ["first".toList] := by
    rw [sse_body, EventStream.read, Text.ofBytes?_bytes, Option.map_some]
    decide +kernel
  refine ⟨hread, ?_⟩
  rw [hread]
  decide +kernel

end Djangors.Http
