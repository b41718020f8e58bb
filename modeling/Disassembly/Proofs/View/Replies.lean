import Disassembly.Proofs.View.History

/-! # What a view replies

Each request has a reply, and leaves a view in a world. All requests but that to drop the window begin
by opening the zone, so the reply to one, and what it leaves, depend on the view by nothing but what
opening it gives; and if that is an error, the error is the reply and no more is done.
-/

namespace Disassembly
namespace View

variable {σ : Type}

inductive Reply where
  | lines (result : Except Error (List Line))
  | shown (result : Except Error (List DisplayLine))
  | target (result : Except Error (Option Nat))
  | count (result : Except Error Nat)
  | text (text : String) (fault : Option Error)
  | nothing

def reply (v : View σ) (w : σ) : Request → Reply
  | .render start count => .lines (v.render start count w).1
  | .display start count opts => .shown (v.display start count opts w).1
  | .follow line => .target (v.follow line w).1
  | .lineOfOffset offset => .count (v.lineOfOffset offset w).1
  | .exportText => .text (v.exportText w).1 (v.exportText w).2.1
  | .invalidate => .nothing
  | .initialise => .count (v.initialise w).1
  | .deepScan => .count (v.deepScan w).1

def respond (v : View σ) (w : σ) (request : Request) : Reply × View σ × σ :=
  (v.reply w request, v.answer w request)

def Request.refusal (e : Error) : Request → Reply
  | .render _ _ => .lines (.error e)
  | .display _ _ _ => .shown (.error e)
  | .follow _ => .target (.error e)
  | .lineOfOffset _ => .count (.error e)
  | .exportText => .text "" (some e)
  | .invalidate => .nothing
  | .initialise => .count (.error e)
  | .deepScan => .count (.error e)

def Tour.reply (t : Tour σ) (request : Request) : Reply :=
  t.view.reply t.world request

theorem respond_congr {v v' : View σ} {w w' : σ} (h : v.ensureOpen w = v'.ensureOpen w')
    {request : Request} (hrequest : request ≠ .invalidate) :
    v.respond w request = v'.respond w' request := by
  have hrender : ∀ start count, v.render start count w = v'.render start count w' :=
    fun start count => by rw [render, render, h]
  rw [respond, respond]
  cases request with
  | render start count => rw [reply, reply, answer, answer, hrender]
  | display start count opts => rw [reply, reply, answer, answer, display, display, hrender]
  | follow line => rw [reply, reply, answer, answer, follow, follow, h]
  | lineOfOffset offset => rw [reply, reply, answer, answer, lineOfOffset, lineOfOffset, h]
  | exportText => rw [reply, reply, answer, answer, exportText, exportText, h]
  | invalidate => exact absurd rfl hrequest
  | initialise => rw [reply, reply, answer, answer, initialise, initialise, h]
  | deepScan => rw [reply, reply, answer, answer, deepScan, deepScan, h]

theorem respond_of_error {v v₁ : View σ} {w w₁ : σ} {e : Error}
    (h : v.ensureOpen w = (.error e, v₁, w₁)) {request : Request}
    (hrequest : request ≠ .invalidate) :
    v.respond w request = (request.refusal e, v₁, w₁) := by
  have hrender : ∀ start count, v.render start count w = (.error e, v₁, w₁) :=
    fun start count => by rw [render, h]
  rw [respond]
  cases request with
  | render start count => rw [reply, answer, hrender]; rfl
  | display start count opts => rw [reply, answer, display, hrender]; rfl
  | follow line => rw [reply, answer, follow, h]; rfl
  | lineOfOffset offset => rw [reply, answer, lineOfOffset, h]; rfl
  | exportText => rw [reply, answer, exportText, h]; rfl
  | invalidate => exact absurd rfl hrequest
  | initialise => rw [reply, answer, initialise, h]; rfl
  | deepScan => rw [reply, answer, deepScan, h]; rfl

end View
end Disassembly
