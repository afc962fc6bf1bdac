import IpAtlas.Form.Location
import IpAtlas.Proofs.Address.Text
import IpAtlas.Proofs.Json.Draft

/-!
# Addresses and spans as JSON

An address is stored as its text, and a span as an object with the texts of its bounds.  Since the
text of an address is read back, both are, whether they went through a text or through a value; and
a span is read back whatever its bounds are, as nothing is checked.

## What is here

* `Form.address_draft`, `Form.span_draft` — what the drafts are read as.
* `Address.text_and_back` — the text of an address determines it, with blanks around it, as JSON and
  inside a span.
-/

set_option autoImplicit false

namespace IpAtlas

namespace Form

open Json (Context Decoder ReadsBack readsBack_text readsBack_object)

theorem string_draft (ctx : Context) (s : String) :
    Decoder.string ctx (Json.text s).draft = .ok s := rfl

theorem address_draft (ctx : Context) (a : Address) : address ctx (ofAddress a).draft = .ok a := by
  rw [address, ofAddress, string_draft]
  simp only [bind, Except.bind, Address.ofText?_toText_alone]
  rfl

theorem readsBack_ofAddress (a : Address) : ReadsBack (ofAddress a) := readsBack_text a.toText

theorem readsBack_ofSpan (s : Span) : ReadsBack (ofSpan s) := by
  refine readsBack_object fun m hm => ?_
  simp only [List.mem_cons, List.not_mem_nil, or_false] at hm
  rcases hm with rfl | rfl
  · exact readsBack_ofAddress s.first
  · exact readsBack_ofAddress s.last

/-- The members of a span may stand in either order. -/
theorem span_draft {ctx inner : Context} (hinside : ctx.inside = .ok inner) (s : Span) :
    span ctx (ofSpan s).draft = .ok s ∧
      span ctx (Json.object [("end", ofAddress s.last), ("start", ofAddress s.first)]).draft =
        .ok s := by
  constructor
  · simp [span, Json.Shape.decoder, spanShape, ofSpan, Json.draft, Json.draftMembers, hinside,
      Json.Shape.fromMembers, field, address_draft, Json.refuse, Json.Ending.fault?, bind,
      Except.bind, Except.map, given, pure, Except.pure]
  · simp [span, Json.Shape.decoder, spanShape, Json.draft, Json.draftMembers, hinside,
      Json.Shape.fromMembers, field, address_draft, Json.refuse, Json.Ending.fault?, bind,
      Except.bind, Except.map, given, pure, Except.pure]

/-- The members of a span in the order of their names. -/
theorem normal_ofSpan (s : Span) :
    (ofSpan s).normal = .object [("end", ofAddress s.last), ("start", ofAddress s.first)] := by
  have hlt : ¬ ("start" ≤ "end") := by decide
  simp [ofSpan, ofAddress, Json.normal, Json.normalValues, Json.normalMembers, List.mergeSort,
    List.MergeSort.Internal.splitInTwo, hlt]

end Form

/-- **The text of an address determines it.**  It is read back with any blanks around it, so that no
other address has it; and addresses and spans that are written as JSON are read back, from the text
as well as from the value. -/
theorem Address.text_and_back (a : Address) :
    (∀ front back : String, (∀ c ∈ front.toList, Text.isBlank c = true) →
      (∀ c ∈ back.toList, Text.isBlank c = true) → ofText? (front ++ a.toText ++ back) = some a) ∧
    (∀ b : Address, a.toText = b.toText → a = b) ∧
    (Form.address.runText (Form.ofAddress a).toText = .ok a ∧
      Form.address.runValue (Form.ofAddress a) = .ok a) ∧
    ∀ s : Span, Form.span.runText (Form.ofSpan s).toText = .ok s ∧
      Form.span.runValue (Form.ofSpan s) = .ok s := by
  refine ⟨fun front back hfront hback => a.ofText?_toText hfront hback,
    fun b h => toText_inj.1 h, ⟨?_, Form.address_draft _ a⟩, fun s => ⟨?_, ?_⟩⟩
  · rw [(Form.readsBack_ofAddress a).runText]
    exact Form.address_draft _ a
  · rw [(Form.readsBack_ofSpan s).runText]
    exact (Form.span_draft rfl s).1
  · rw [Json.Decoder.runValue, Form.normal_ofSpan]
    exact (Form.span_draft rfl s).2

/-- An address that carries an IPv4 address is written with dots, and is read back between a tab and
an ideographic space; the IPv4 address itself has another text.  Both are the bounds of a span that
is no range, and is read back all the same. -/
theorem Address.text_and_back_mapped :
    ∃ (mapped plain : Address) (s : Span), mapped.toText = "::ffff:1.2.3.4" ∧
      plain.toText = "1.2.3.4" ∧ ofText? ("\t" ++ mapped.toText ++ "\u3000") = some mapped ∧
      mapped ≠ plain ∧ s = ⟨mapped, plain⟩ ∧ ¬ s.Valid ∧
      Form.span.runText (Form.ofSpan s).toText = .ok s := by
  let mapped : Address := ⟨.v6, 0xFFFF01020304, by decide⟩
  let plain : Address := ⟨.v4, 0x01020304, by decide⟩
  obtain ⟨hback, -, -, hspan⟩ := Address.text_and_back mapped
  refine ⟨mapped, plain, ⟨mapped, plain⟩, by decide, by decide,
    hback "\t" "\u3000" (List.all_eq_true.1 (by decide)) (List.all_eq_true.1 (by decide)),
    by decide, rfl, by decide, (hspan _).1⟩

end IpAtlas
