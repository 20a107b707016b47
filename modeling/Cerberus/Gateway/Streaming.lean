import Cerberus.Gateway.Model

/-!
# Streaming against not streaming

A client that asks for a stream gets the output in pieces of 64 bytes, each encoded as JSON on its
own. JSON has no bytes that are not UTF-8: each of them comes out as U+FFFD. So the pieces join to
the output of the document iff no cut goes through a character (`streamed_text_iff`).
-/

namespace Cerberus.Gateway

open Foundation Contract List Bool

/-- The content that a client decodes from the choices of a document. -/
def ChatResponse.text (r : ChatResponse) : List UInt8 :=
  r.choices.flatMap fun c => c.message.content.coerce.bytes

/-- The contents that a client decodes from the events of a stream, joined. -/
def chatText (s : EventStream ChatChunk) : List UInt8 :=
  s.events.flatMap fun e => e.choices.flatMap fun c => c.content.coerce.bytes

def CompletionResponse.text (r : CompletionResponse) : List UInt8 :=
  r.choices.flatMap fun c => c.text.coerce.bytes

/-- What a client joins from the events. -/
def completionText (s : EventStream CompletionChunk) : List UInt8 :=
  s.events.flatMap fun e => e.choices.flatMap fun c => c.text.coerce.bytes

/-- The connection stays. -/
structure Client.Connected (cl : Client) : Prop where
  canFlush : cl.canFlush = true
  gone : ∀ i, cl.gone i = false
  broken : ∀ i, cl.broken i = false

/-- No multiple of `n` inside the text is a place within a character. -/
def Uncut (n : ℕ) (s : List UInt8) : Prop :=
  ∀ k b, s[n * (k + 1)]? = some b → isCont b = false

variable {cl : Client} {n : ℕ}

/-! ### The pieces -/

variable {fuel : ℕ} {κ α : Type} {g : Gateway} {validate : α → Option Failure}
  {model : α → GoString} {r : HttpRequest α} {req : α} {content : GoString}

variable {s : List UInt8}

/-- The loop of `chunkString` as it is in the source: with enough fuel there is no other end than a
rest that is short enough. -/
lemma chunkLoop_eq (hn : 0 < n) (hfuel : s.length ≤ fuel) :
    chunkLoop n fuel s =
      if n < s.length then s.take n :: chunkLoop n fuel (s.drop n) else [s] := by
  induction fuel generalizing s with
  | zero => rw [chunkLoop, if_neg (by omega)]
  | succ fuel ih =>
    rw [chunkLoop]
    split_ifs with hlt
    · have hdrop : (s.drop n).length ≤ fuel := by
        rw [length_drop]
        omega
      rw [ih hdrop, chunkLoop]
    · rfl

lemma flatten_chunkLoop (n fuel : ℕ) (s : List UInt8) : (chunkLoop n fuel s).flatten = s := by
  induction fuel generalizing s with
  | zero => exact flatten_singleton
  | succ fuel ih =>
    rw [chunkLoop]
    split_ifs
    · rw [flatten_cons, ih, take_append_drop]
    · exact flatten_singleton

lemma uncut_iff : Uncut n s ↔ (∀ b, s[n]? = some b → isCont b = false) ∧ Uncut n (s.drop n) := by
  have hshift : ∀ k, (s.drop n)[n * (k + 1)]? = s[n * (k + 1 + 1)]? := by
    intro k
    rw [List.getElem?_drop, Nat.mul_succ n (k + 1), Nat.add_comm]
  unfold Uncut
  simp only [hshift]
  constructor
  · intro h
    refine ⟨fun b hb => h 0 b ?_, fun k b hb => h (k + 1) b hb⟩
    rwa [Nat.zero_add, Nat.mul_one]
  · intro h k b hb
    cases k with
    | zero => exact h.1 b (by rwa [Nat.zero_add, Nat.mul_one] at hb)
    | succ k => exact h.2 k b hb

lemma valid_chunkLoop_iff (hn : 0 < n) (hfuel : s.length ≤ fuel)
    (hs : validUtf8 s = true) : (∀ p ∈ chunkLoop n fuel s, validUtf8 p = true) ↔ Uncut n s := by
  induction hlen : s.length using Nat.strong_induction_on generalizing s with
  | _ m ih =>
    rw [chunkLoop_eq hn hfuel]
    split_ifs with hlt
    · have hget : s[n]? = some s[n] := List.getElem?_eq_getElem hlt
      have hdrop : (s.drop n).length = s.length - n := length_drop
      rw [forall_mem_cons, uncut_iff]
      simp only [hget, Option.some.injEq, forall_eq']
      rw [validUtf8_take_iff hs hget]
      refine and_congr_right fun hcont => ?_
      exact ih _ (by omega) (by omega)
        (validUtf8_drop hs ((validUtf8_take_iff hs hget).mpr hcont)) rfl
    · refine iff_of_true (fun p hp => ?_) fun k b hb => ?_
      · rw [mem_singleton.mp hp]
        exact hs
      · have hlen := (List.getElem?_eq_some_iff.mp hb).1
        have hle : n * 1 ≤ n * (k + 1) := Nat.mul_le_mul_left n (by omega)
        omega

/-- The pieces of a valid string, coerced one by one, join to it iff no cut goes through a
character. -/
lemma flatMap_coerce_chunkString_iff (hn : 0 < n) {s : GoString} (hs : s.valid = true) :
    (chunkString s n).flatMap (fun p => p.coerce.bytes) = s.bytes ↔ Uncut n s.bytes := by
  rw [chunkString]
  split_ifs with hempty hzero
  · subst hempty
    refine iff_of_true rfl fun k b hb => ?_
    cases hb
  · exact absurd hzero (by omega)
  · rw [flatMap_map, ← valid_chunkLoop_iff hn le_rfl hs, ← flatMap_coerceUtf8_eq_iff,
      flatten_chunkLoop]
    rfl

/-! ### The events -/

section

variable (hcl : cl.Connected)
include hcl

lemma writePieces_of_connected (chunk : GoString → κ) (i : ℕ)
    (pieces : List GoString) : writePieces cl chunk i pieces = (pieces.map chunk, true) := by
  induction pieces generalizing i with
  | nil => rfl
  | cons piece pieces ih =>
    rw [writePieces, if_neg, ih]
    · rfl
    · rw [hcl.gone, hcl.broken]
      decide

lemma streamContent_of_connected (chunk : GoString → κ) (last : κ) (i : ℕ) (content : GoString) :
    streamContent cl chunk last i content =
      ⟨(chunkString content 64).map chunk ++ [last], true⟩ := by
  rw [streamContent, writePieces_of_connected hcl]
  simp [hcl.broken]

lemma streamChat_of_connected (id : GoString) (req : ChatRequest)
    (content : GoString) (created : Int64) :
    ∃ s, streamChat cl id req content created = .stream s ∧
      chatText s = (chunkString content 64).flatMap fun p => p.coerce.bytes := by
  have hempty : (GoString.lit "").coerce.bytes = [] := rfl
  simp only [streamChat, hcl.canFlush, hcl.broken, streamContent_of_connected hcl,
    true_eq_false, false_eq_true, if_false]
  exact ⟨_, rfl, by simp [chatText, flatMap_map, hempty]⟩

lemma streamCompletion_of_connected (id model text : GoString) (created : Int64) :
    ∃ s, streamCompletion cl id model text created = .stream s ∧
      completionText s = (chunkString text 64).flatMap fun p => p.coerce.bytes := by
  have hempty : (GoString.lit "").coerce.bytes = [] := rfl
  simp only [streamCompletion, hcl.canFlush, streamContent_of_connected hcl, true_eq_false,
    if_false]
  exact ⟨_, rfl, by simp [completionText, flatMap_map, hempty]⟩

end

/-- The request with another body. -/
def HttpRequest.mapBody (f : α → α) (r : HttpRequest α) : HttpRequest α :=
  { r with body := r.body.map f }

def ChatRequest.streaming (b : Bool) (req : ChatRequest) : ChatRequest := { req with stream := b }

def CompletionRequest.streaming (b : Bool) (req : CompletionRequest) : CompletionRequest :=
  { req with stream := b }

lemma accept_eq_ok_iff :
    g.accept validate model r = .ok (req, content) ↔
      r.method = .lit "POST" ∧ r.body = .ok req ∧ r.more = false ∧ validate req = none ∧
        ∃ subject result, g.authorize r.authorization = .ok subject ∧
          g.dispatch subject (model req) = .ok result ∧ result.ok = true ∧
            content = ⟨result.output⟩ := by
  constructor
  · intro h
    unfold accept at h
    split at h
    · cases h
    rename_i hmethod
    split at h
    · cases h
    rename_i subject hauth
    split at h
    · cases h
    rename_i req' hbody
    split at h
    · cases h
    rename_i hmore
    split at h
    · cases h
    rename_i hvalidate
    split at h
    · cases h
    rename_i result hdispatch
    split at h
    · cases h
    rename_i hok
    cases h
    exact ⟨not_not.mp hmethod, hbody, eq_false_of_not_eq_true hmore, hvalidate, subject,
      result,
      hauth, hdispatch, eq_true_of_not_eq_false hok, rfl⟩
  · rintro ⟨hmethod, hbody, hmore, hvalidate, subject, result, hauth, hdispatch, hok, rfl⟩
    rw [accept, if_neg (not_not.mpr hmethod), hauth, hbody]
    simp only [hmore, false_eq_true, if_false, hvalidate, hdispatch, hok, true_eq_false]

lemma accept_map {f : α → α} (hvalidate : ∀ a, validate (f a) = validate a)
    (hmodel : ∀ a, model (f a) = model a) (h : g.accept validate model r = .ok (req, content)) :
    g.accept validate model (r.mapBody f) = .ok (f req, content) := by
  obtain ⟨hmethod, hbody, hmore, hval, subject, result, hauth, hdispatch, hok, hcontent⟩ :=
    accept_eq_ok_iff.mp h
  refine accept_eq_ok_iff.mpr ⟨hmethod, ?_, hmore, ?_, subject, result, hauth, ?_, hok, hcontent⟩
  · rw [HttpRequest.mapBody, hbody]
    rfl
  · rw [hvalidate, hval]
  · rw [hmodel, hdispatch]

/-- For every request that is answered, over a connection that stays and with an output that is
UTF-8: the contents of the events join to the content of the document iff no multiple of 64
cuts through a character of the output, for chats and for completions alike. -/
theorem streamed_text_iff (g : Gateway) (cl : Client) (hcl : cl.Connected) (created : Int64) :
    (∀ (r : HttpRequest ChatRequest) (req : ChatRequest) (content : GoString),
      g.accept ChatRequest.validate ChatRequest.model r = .ok (req, content) →
        content.valid = true → ∃ s d,
          g.handleChatCompletions cl created (r.mapBody (.streaming true)) = .stream s ∧
          g.handleChatCompletions cl created (r.mapBody (.streaming false)) = .document d ∧
          (chatText s = d.text ↔ Uncut 64 content.bytes)) ∧
    ∀ (r : HttpRequest CompletionRequest) (req : CompletionRequest) (content : GoString),
      g.accept CompletionRequest.validate CompletionRequest.model r = .ok (req, content) →
        content.valid = true → ∃ s d,
          g.handleCompletions cl created (r.mapBody (.streaming true)) = .stream s ∧
          g.handleCompletions cl created (r.mapBody (.streaming false)) = .document d ∧
          (completionText s = d.text ↔ Uncut 64 content.bytes) := by
  constructor
  · intro r req content haccept hvalid
    have hgate : ∀ b, g.accept ChatRequest.validate ChatRequest.model (r.mapBody (.streaming b)) =
        .ok ({ req with stream := b }, content) := fun b =>
      accept_map (fun _ => rfl) (fun _ => rfl) haccept
    obtain ⟨s, hs, htext⟩ := streamChat_of_connected hcl (.lit "chatcmpl-cerberus")
      { req with stream := true } content created
    rw [← flatMap_coerce_chunkString_iff (by decide) hvalid, ← htext]
    simp only [handleChatCompletions, hgate, if_true, false_eq_true, if_false]
    exact ⟨s, _, hs, rfl, by simp [ChatResponse.text, GoString.coerce_of_valid hvalid]⟩
  · intro r req text haccept hvalid
    have hgate : ∀ b, g.accept CompletionRequest.validate CompletionRequest.model
        (r.mapBody (.streaming b)) = .ok ({ req with stream := b }, text) := fun b =>
      accept_map (fun _ => rfl) (fun _ => rfl) haccept
    obtain ⟨s, hs, htext⟩ := streamCompletion_of_connected hcl (.lit "cmpl-cerberus") req.model text
      created
    rw [← flatMap_coerce_chunkString_iff (by decide) hvalid, ← htext]
    simp only [handleCompletions, hgate, if_true, false_eq_true, if_false]
    exact ⟨s, _, hs, rfl, by simp [CompletionResponse.text, GoString.coerce_of_valid hvalid]⟩

namespace Sample

def printing (output : List UInt8) : Gateway where
  authorizer _ _ _ := .ok (.lit "alice")
  dispatcher t := .ok ⟨t.taskID, Vector.replicate 32 0⟩
  resolver p := .ok ⟨p.promiseID, true, output, .lit ""⟩
  models := .empty

def connected : Client := ⟨true, fun _ => false, fun _ => false⟩

def chat : HttpRequest ChatRequest :=
  ⟨.lit "POST", .lit "Bearer t", .ok ⟨.lit "m", [⟨.lit "user", .lit "hi"⟩], false⟩, false⟩

def completion : HttpRequest CompletionRequest :=
  ⟨.lit "POST", .lit "Bearer t", .ok ⟨.lit "m", .lit "hi", false⟩, false⟩

/-- A text with a character of two bytes at the end of the first 64. -/
def straddling : List UInt8 := List.replicate 63 0x61 ++ [0xC3, 0xA9]

end Sample

open Sample

/-- A short text is the same in a stream and in a document. -/
theorem streamed_text_of_short :
    ∃ s d, (printing [0xC3, 0xA9]).handleChatCompletions connected 0
        (chat.mapBody (.streaming true)) = .stream s ∧
      (printing [0xC3, 0xA9]).handleChatCompletions connected 0
        (chat.mapBody (.streaming false)) = .document d ∧ chatText s = d.text := by
  obtain ⟨s, d, hs, hd, hiff⟩ := (streamed_text_iff (printing [0xC3, 0xA9]) connected
    ⟨rfl, fun _ => rfl, fun _ => rfl⟩ 0).1 chat _ ⟨[0xC3, 0xA9]⟩ rfl (by decide)
  refine ⟨s, d, hs, hd, hiff.mpr fun k b hb => ?_⟩
  have hlen := (List.getElem?_eq_some_iff.mp hb).1
  simp only [length_cons, length_nil] at hlen
  omega

/-- A character on the edge of the first piece is lost in a stream, of a chat and of a
completion. -/
theorem straddling_character_lost :
    validUtf8 straddling = true ∧
    (∃ s d, (printing straddling).handleChatCompletions connected 0
        (chat.mapBody (.streaming true)) = .stream s ∧
      (printing straddling).handleChatCompletions connected 0
        (chat.mapBody (.streaming false)) = .document d ∧
      d.text = straddling ∧ chatText s ≠ d.text) ∧
    ∃ s d, (printing straddling).handleCompletions connected 0
        (completion.mapBody (.streaming true)) = .stream s ∧
      (printing straddling).handleCompletions connected 0
        (completion.mapBody (.streaming false)) = .document d ∧
      d.text = straddling ∧ completionText s ≠ d.text :=
  ⟨by decide +kernel, ⟨_, _, rfl, rfl, by decide +kernel, by decide +kernel⟩,
    ⟨_, _, rfl, rfl, by decide +kernel, by decide +kernel⟩⟩

end Cerberus.Gateway
