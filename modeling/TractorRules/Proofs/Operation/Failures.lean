import TractorRules.Proofs.Operation.Answers
import TractorRules.CommandLine.Run
import TractorRules.Service

/-!
# How requests fail

Every operation answers a request that the host can show, or refuses it with a fault that has a
printable message.  The one exception is a number given as a text that counts as digits and that no
integer is read from: the fault of reading it is not named by the request, and the service does not
respond and the run of the command line is interrupted.
-/

namespace TractorRules

open Wire

variable {s : Json.Scope} {depth : Nat} {request : Json}

/-! ### Requests -/

theorem Reply.noting_result (op : Operation) (reply : Reply) :
    (reply.noting op).result = reply.result := by
  unfold noting
  split
  · rfl
  · rfl

theorem Reply.Proper.noting {reply : Reply} (h : reply.Proper s) (op : Operation) :
    (reply.noting op).Proper s := by
  refine ⟨?_, reply.noting_result op ▸ h.result⟩
  unfold Reply.noting
  split
  · rename_i fault hr
    have described := h.result
    rw [hr] at described
    exact List.forall_mem_append.2 ⟨h.notes, List.forall_mem_singleton.2 described⟩
  · exact h.notes

/-- An operation runs, and a refusal is noted, unless the request should have been an object. -/
theorem Operation.answer_cases [RowOrder] (op : Operation) (request : Json) :
    op.answer request = (op.run request).noting op ∨
      op ≠ .computeDeckLen ∧ (∀ fields, request ≠ .object fields) ∧
        op.answer request = { result := refuse (.notAnObject op.name request) } := by
  unfold answer
  split
  · exact Or.inl rfl
  · exact Or.inl rfl
  · rename_i notDecks notObject
    exact Or.inr ⟨notDecks, notObject, rfl⟩

theorem Operation.answer_proper [RowOrder] (op : Operation) (h : request.Within s) :
    (op.answer request).Proper s := by
  rcases op.answer_cases request with hr | ⟨-, -, hr⟩
  · rw [hr]
    exact (op.run_proper h).noting op
  · have name : Printable op.name := by cases op <;> decide
    rw [hr]
    exact ⟨List.forall_mem_nil _, refuse_ensures ⟨name, List.forall_mem_nil _⟩⟩

theorem Operation.ofName?_name (op : Operation) : ofName? (Text.ofString op.name) = some op := by
  cases op <;> decide

theorem dispatch_object [RowOrder] (op : Operation) (fields : Fields) :
    (dispatch (Text.ofString op.name) (.object fields)).result =
      (op.run (.object fields)).result := by
  rw [dispatch, Operation.ofName?_name]
  rcases op.answer_cases (.object fields) with hr | ⟨-, notObject, -⟩
  · exact (congrArg Reply.result hr).trans (Reply.noting_result op _)
  · exact absurd rfl (notObject fields)

theorem dispatch_proper [RowOrder] (name : Text) (h : request.Within s) :
    (dispatch name request).Proper s := by
  unfold dispatch
  split
  · rename_i op _
    exact op.answer_proper h
  · exact ⟨List.forall_mem_nil _, refuse_ensures ⟨trivial, List.forall_mem_nil _⟩⟩

/-! ### Requests without stray digits -/

/-- Whether no text in a value counts as digits without being an integer. -/
def Json.HasNoStrayDigits (value : Json) : Prop := ∀ t ∈ value.texts, t.isStrayDigits = false

instance (value : Json) : Decidable value.HasNoStrayDigits :=
  inferInstanceAs (Decidable (∀ t ∈ value.texts, t.isStrayDigits = false))

theorem Json.HasNoStrayDigits.not_stray (hs : s.request.HasNoStrayDigits) (v : ValueFault) :
    ¬v.Stray s := by
  intro h
  obtain ⟨t, ht, stray, -⟩ := h
  rw [hs t ht] at stray
  cases stray

/-- A reply with a response that can be written, or with a refusal that can be described. -/
def Reply.Settled (depth : Nat) (reply : Reply) : Prop :=
  (∀ note ∈ reply.notes, note.Described depth) ∧
    ((∃ response, reply.result = .ok response ∧ response.Writable) ∨
      ∃ fault, reply.result = .error (.rules fault) ∧ fault.Described depth)

/-- Where no digits are stray, all that is left to fail with is a refusal. -/
theorem Reply.Proper.settled {reply : Reply} (h : reply.Proper s)
    (hs : s.request.HasNoStrayDigits) : reply.Settled s.depth := by
  refine ⟨h.notes, ?_⟩
  have result := h.result
  cases hr : reply.result with
  | ok response =>
    rw [hr] at result
    exact Or.inl ⟨response, rfl, result⟩
  | error fault =>
    rw [hr] at result
    cases fault with
    | rules fault => exact Or.inr ⟨fault, rfl, result⟩
    | value v => exact absurd result (hs.not_stray v)

/-! ### The command line -/

namespace CommandLine

/-- A run that answers, or that ends with one line for the refusal after the remarks that were asked
for. -/
inductive Settles (options : Options) : Outcome → Prop
  | answered (output errors : String) : Settles options ⟨0, output, errors⟩
  | refused (remarks : List String) (description : String) (h : '\n' ∉ description.toList)
      (hr : options.verbose = false → remarks = []) :
      Settles options ⟨1, "", textOfLines (remarks ++ [description])⟩

/-- Nothing is found that can be read as JSON. -/
def Contents.IsUnread (limit : Nat) : Contents → Prop
  | .missing => True
  | .undecodable => False
  | .text t => Json.read limit t = .error .malformed

theorem answer_settles [RowOrder] (options : Options)
    (h : (options.operation.answer request).Settled depth) :
    ∃ outcome, answer options request = .ok outcome ∧ Settles options outcome := by
  have plain (remarks : List String) :
      options.verbose = false → (if options.verbose then remarks else []) = [] :=
    fun hv => if_neg (by simp [hv])
  unfold answer
  dsimp only
  obtain ⟨-, ⟨response, hr, hw⟩ | ⟨fault, hr, hd⟩⟩ := h
  · rw [hr]
    have written : response.integers.all Text.isWritable := List.all_eq_true.2 hw
    dsimp only
    rw [if_pos written]
    exact ⟨_, rfl, .answered _ _⟩
  · rw [hr]
    exact ⟨_, rfl, .refused _ _ hd.1.oneLine (plain _)⟩

theorem run_eq_answerContents [RowOrder] {limit : Nat} {words : List String} {input : Contents}
    {file : String → Contents} {options : Options} {path : Option String}
    (ho : Options.read words = .ok options) (hp : options.path? = .ok path) :
    run limit words input file = answerContents limit options (path.elim input file) := by
  unfold run
  rw [ho]
  dsimp only
  rw [hp]
  cases path with
  | none => rfl
  | some p => rfl

theorem answerContents_of_isUnread [RowOrder] {limit : Nat} (options : Options)
    {contents : Contents} (h : contents.IsUnread limit) :
    answerContents limit options contents = .ok ⟨1, "", unreadable⟩ := by
  cases contents with
  | missing => rfl
  | undecodable => exact absurd h id
  | text t =>
    unfold answerContents
    dsimp only
    rw [show Json.read limit t = .error .malformed from h]

theorem answerContents_of_read [RowOrder] {limit : Nat} (options : Options) {t : Text}
    (h : Json.read limit t = .ok request) :
    answerContents limit options (.text t) = answer options request := by
  unfold answerContents
  dsimp only
  rw [h]

end CommandLine

/-! ### Answers and refusals -/

theorem Service.respond_of_settled [RowOrder] {op : Operation}
    (h : Reply.Settled depth (op.run request)) :
    (∃ body, respond op request = .ok (.ok body) ∧ body.Writable) ∨
      ∃ detail, respond op request = .ok (.badRequest detail) := by
  unfold respond
  obtain ⟨-, ⟨body, hr, hw⟩ | ⟨fault, hr, -⟩⟩ := h
  · rw [hr]
    exact Or.inl ⟨body, rfl, hw⟩
  · rw [hr]
    exact Or.inr ⟨fault.message, rfl⟩

section

open scoped RowOrder

/-- A request with a number of a player in digits of another script, which is an integer. -/
def arabicIndicRequest : Json := .record [("player_id", .text ⟨[1633]⟩),
  ("hands", .record [("1", .array [.ofString "2S"])]),
  ("players", .array [.record [("id", .int 1), ("name", .ofString "²nd"), ("level", .int 2)]])]

/-- A request with a superscript two for the number of a player. -/
def superscriptRequest : Json := .record [("player_id", .text ⟨[178]⟩)]

end

end TractorRules
