import Letrec.Program
import Letrec.Proofs.Evaluation.Places
import Letrec.Proofs.Expr.RoundTrip

/-!
# The canonical form of a program

The canonical form of a program is the text of the expression it is read as. If that text is read as
the document it was written for, it stands for an expression that is alike, with other places and
with nothing shared. So it is its own canonical form, and it is checked, written in textbook
notation and run as the program is.
-/

namespace Letrec

namespace Program

variable {p c : Program} {e e' : Expr} {s : Settings}

theorem check_of_read (h : p.read = .ok e) : p.check s = e.scopeErrors s.prelude.names := by
  unfold check
  rw [h]

theorem run_of_read (h : p.read = .ok e) : p.run s = s.evaluate e := by
  unfold run
  rw [h]

theorem format_of_read (h : p.read = .ok e) : p.format = .ok e.format := by
  unfold format
  rw [h]
  rfl

theorem encode_of_read (h : p.read = .ok e) : p.encode = .ok e.toText := by
  unfold encode
  rw [h]
  rfl

theorem read_complete (h : p.read = .ok e) : e.Complete ∧ e.Coherent := by
  obtain ⟨g, _, hdecode⟩ := Expr.ofText_eq_ok.mp h
  have hderives := Expr.decode_eq_ok.mp hdecode
  exact ⟨hderives.complete, hderives.coherent⟩

-- ---------------------------------------------------------------------------
-- Programs that are read as expressions that are alike
-- ---------------------------------------------------------------------------

theorem check_of_bare (h : p.read = .ok e) (h' : c.read = .ok e') (hbare : e'.bare = e.bare) :
    p.check s = [] ↔ c.check s = [] := by
  have hscoped : e.Scoped s.prelude.names ↔ e'.Scoped s.prelude.names := by
    rw [← Expr.scoped_bare, ← hbare, Expr.scoped_bare]
  rw [check_of_read h, check_of_read h', scopeErrors_eq_nil (read_complete h).2,
    scopeErrors_eq_nil (read_complete h').2, hscoped]

theorem run_of_bare (h : p.read = .ok e) (h' : c.read = .ok e') (hbare : e'.bare = e.bare)
    (hcheck : p.check s = []) (henv : s.prelude.env 1 = .ok env) :
    ∃ o o', p.run s = .ok o ∧ c.run s = .ok o' ∧ o.Alike o' := by
  have hcheck' := (check_of_bare h h' hbare).mp hcheck
  rw [check_of_read h] at hcheck
  rw [check_of_read h'] at hcheck'
  refine ⟨executeWithin s.setup e env, executeWithin s.setup e' env, ?_, ?_,
    execute_alike hbare.symm _ _ env⟩
  · rw [run_of_read h, Settings.evaluate, hcheck, henv]
  · rw [run_of_read h', Settings.evaluate, hcheck', henv]

/-- A program that is read has a canonical form. If that is read as what it was written for, it is
its own canonical form, has the same textbook notation, passes the check if the program does, and is
then run alike. -/
theorem canonical_form_keeps_meaning (p : Program) (e : Expr) (hread : p.read = .ok e) :
    ∃ t, e.encode = .ok t ∧ p.encode = .ok (.ok (t.render 2)) ∧ (t.ReadsBack → ∀ file,
      ∃ c : Program, c = ⟨(t.render 2).toUTF8, file⟩ ∧
        c.encode = .ok (.ok (t.render 2)) ∧ c.format = p.format ∧ p.format = .ok e.format ∧
        ∀ (s : Settings) (env : Env), s.prelude.env 1 = .ok env →
          (p.check s = [] ↔ c.check s = []) ∧
          (p.check s = [] →
            (∃ e', c.read = .ok e' ∧ EndAlike Outcome.Alike s.setup e env e' env) ∧
            ∃ o o', p.run s = .ok o ∧ c.run s = .ok o' ∧ o.Alike o')) := by
  obtain ⟨hcomplete, _⟩ := read_complete hread
  obtain ⟨t, ht⟩ := Expr.exists_encode.mpr hcomplete.absent_not_mem
  have htext : e.toText = .ok (t.render 2) := by simp [Expr.toText, ht]
  have hencode : p.encode = .ok (.ok (t.render 2)) := by rw [encode_of_read hread, htext]
  refine ⟨t, ht, hencode, fun hback file => ⟨_, rfl, ?_⟩⟩
  obtain ⟨e', hread', hbare⟩ := Expr.ofText_of_readsBack hcomplete ht hback 1 file
  replace hread' : Program.read ⟨(t.render 2).toUTF8, file⟩ = .ok e' := hread'
  refine ⟨?_, ?_, format_of_read hread, fun s env henv => ?_⟩
  · rw [encode_of_read hread', ← e'.toText_bare, hbare, e.toText_bare, htext]
  · rw [format_of_read hread, format_of_read hread', ← e'.format_bare, hbare, e.format_bare]
  · refine ⟨check_of_bare hread hread' hbare,
      fun hcheck => ⟨?_, run_of_bare hread hread' hbare hcheck henv⟩⟩
    exact ⟨e', hread', endAlike_of_bare hbare.symm s.setup env⟩

-- ---------------------------------------------------------------------------
-- A program in another form than its canonical one
-- ---------------------------------------------------------------------------

def letProgram : Program where
  bytes := "\x7blet: \x7bbody: \x7bvar: x\x7d, value: \x7bconst: +5\x7d, name: x\x7d\x7d".toUTF8
  file := "f"

def letText : String := "let:\n  name: x\n  value: \x7bconst: 5\x7d\n  body: \x7bvar: x\x7d\n"

def letGraph : Yaml.Graph where
  root := 0
  nodes := #[⟨.map, .mapping [(1, 2)], 1, 1⟩, ⟨.str, .scalar "let", 1, 2⟩,
    ⟨.map, .mapping [(3, 4), (7, 8), (11, 12)], 1, 7⟩, ⟨.str, .scalar "body", 1, 8⟩,
    ⟨.map, .mapping [(5, 6)], 1, 14⟩, ⟨.str, .scalar "var", 1, 15⟩, ⟨.str, .scalar "x", 1, 20⟩,
    ⟨.str, .scalar "value", 1, 24⟩, ⟨.map, .mapping [(9, 10)], 1, 31⟩,
      ⟨.str, .scalar "const", 1, 32⟩,
    ⟨.int, .scalar "+5", 1, 39⟩, ⟨.str, .scalar "name", 1, 44⟩, ⟨.str, .scalar "x", 1, 50⟩]

def letExpr : Expr :=
  .letIn ⟨⟨1, 0⟩, ⟨"f", 1, 1⟩⟩ "x" (.const ⟨⟨1, 8⟩, ⟨"f", 1, 31⟩⟩ 5)
    (.var ⟨⟨1, 4⟩, ⟨"f", 1, 14⟩⟩ "x")

theorem letProgram_read : letProgram.read = .ok letExpr := by
  have hlet : Expr.Layer letGraph 0 (.letIn "x" 8 4) := Expr.formOf_eq_ok.mp (by decide)
  have hconst : Expr.Layer letGraph 8 (.const 5) := Expr.formOf_eq_ok.mp (by decide)
  have hvar : Expr.Layer letGraph 4 (.var "x") := Expr.formOf_eq_ok.mp (by decide)
  refine Expr.ofText_eq_ok.mpr ⟨letGraph, by decide +kernel, Expr.decode_of_derives ?_⟩
  refine @Expr.Derives.node letGraph 1 "f" 0 (.letIn "x" 8 4)
    (fun c => if c = 8 then .const ⟨⟨1, 8⟩, ⟨"f", 1, 31⟩⟩ 5
      else .var ⟨⟨1, 4⟩, ⟨"f", 1, 14⟩⟩ "x") hlet ?_
  rintro c (_ | ⟨_, _ | ⟨_, ⟨⟩⟩⟩)
  · exact @Expr.Derives.node letGraph 1 "f" 8 (.const 5) (fun _ => .absent) hconst nofun
  · exact @Expr.Derives.node letGraph 1 "f" 4 (.var "x") (fun _ => .absent) hvar nofun

theorem letExpr_readsBack (ht : letExpr.encode = .ok t) : t.ReadsBack ∧ t.render 2 = letText := by
  cases ht
  refine ⟨⟨{ root := 0, nodes := #[⟨.map, .mapping [(1, 2)], 1, 1⟩, ⟨.str, .scalar "let", 1, 1⟩,
    ⟨.map, .mapping [(3, 4), (5, 6), (9, 10)], 2, 3⟩, ⟨.str, .scalar "name", 2, 3⟩,
      ⟨.str, .scalar "x", 2, 9⟩,
    ⟨.str, .scalar "value", 3, 3⟩, ⟨.map, .mapping [(7, 8)], 3, 10⟩, ⟨.str, .scalar "const", 3, 11⟩,
    ⟨.int, .scalar "5", 3, 18⟩, ⟨.str, .scalar "body", 4, 3⟩, ⟨.map, .mapping [(11, 12)], 4, 9⟩,
    ⟨.str, .scalar "var", 4, 10⟩, ⟨.str, .scalar "x", 4, 15⟩] }, by decide +kernel,
      ?_⟩, by decide +kernel⟩
  have hstr {g : Yaml.Graph} {i : Nat} {x : String}
      (h : (g.node i).shape = .scalar x ∧ (g.node i).tag = .str) : g.Holds i (Yaml.Tree.str x) :=
    ⟨h.1, fun _ => h.2⟩
  refine ⟨_, rfl, hstr (by decide), ⟨_, rfl, ?_⟩, trivial⟩
  refine ⟨hstr (by decide), hstr (by decide), hstr (by decide), ?_, hstr (by decide), ?_, trivial⟩
  · exact ⟨_, rfl, hstr (by decide), ⟨rfl, nofun⟩, trivial⟩
  · exact ⟨_, rfl, hstr (by decide), hstr (by decide), trivial⟩

theorem canonical_form_keeps_meaning_let :
    letProgram.encode = .ok (.ok letText) ∧ ∃ c : Program, c = ⟨letText.toUTF8, "g"⟩ ∧
      c.encode = .ok (.ok letText) ∧ c.format = letProgram.format ∧ letProgram.check {} = [] ∧
      ∃ o o', letProgram.run {} = .ok o ∧ c.run {} = .ok o' ∧ o.Alike o' := by
  obtain ⟨t, ht, hencode, h⟩ := canonical_form_keeps_meaning letProgram letExpr letProgram_read
  obtain ⟨hback, htext⟩ := letExpr_readsBack ht
  obtain ⟨c, hc, hidem, hformat, _, hsettings⟩ := h hback "g"
  rw [htext] at hencode hc hidem
  have hcheck : letProgram.check {} = [] := by
    rw [check_of_read letProgram_read]
    exact (scopeErrors_eq_nil (read_complete letProgram_read).2).mpr (by decide)
  exact ⟨hencode, c, hc, hidem, hformat, hcheck, ((hsettings {} _ rfl).2 hcheck).2⟩

end Program

end Letrec
