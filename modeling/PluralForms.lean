import PluralForms.Folder
import PluralForms.Main
import PluralForms.Proofs.Condition.Negation
import PluralForms.Proofs.Condition.Complement
import PluralForms.Proofs.CanonicalOrder
import PluralForms.Proofs.Rule.Meaning
import PluralForms.Proofs.RuleSet.Stages
import PluralForms.Proofs.RuleSet.Meaning
import PluralForms.Proofs.Condition.Canonical
import PluralForms.Proofs.Condition.Comparisons
import PluralForms.Proofs.Condition.Negatable
import PluralForms.Proofs.Formula.Characters
import PluralForms.Proofs.Formula.Reader
import PluralForms.Proofs.Formula.Reading
import PluralForms.Proofs.Formula.Meaning
import PluralForms.Proofs.Relation.Form
import PluralForms.Proofs.Text.Numeral
import PluralForms.Proofs.Relation.Grammar
import PluralForms.Proofs.Relation.Opposite
import PluralForms.Proofs.Rule.Canonical
import PluralForms.Proofs.Rule.Verdict
import PluralForms.Proofs.Rule.Pieces
import PluralForms.Proofs.Rule.Grammar
import PluralForms.Proofs.RuleSet.Success
import PluralForms.Proofs.RuleSet.Order
import PluralForms.Proofs.RuleSet.Survivors
import PluralForms.Proofs.RuleSet.Failure
import PluralForms.Proofs.SampleList.Item
import PluralForms.Proofs.RuleSet.Invariant
import PluralForms.Proofs.Condition.Checked
import PluralForms.Proofs.RuleSet.Canonical
import PluralForms.Proofs.RuleSet.TwoCategories
import PluralForms.Proofs.Locale.Outcomes
import PluralForms.Proofs.RuleSet.Guards
import PluralForms.Proofs.Locale.FailFast
import PluralForms.Proofs.Locale.Selection
import PluralForms.Proofs.Locale.Accounting
import PluralForms.Proofs.Locale.Spelling
import PluralForms.Proofs.Locale.Agreement
import PluralForms.Proofs.Json.Scalars
import PluralForms.Proofs.Json.RoundTrip
import PluralForms.Proofs.Document.Json
import PluralForms.Proofs.Document.Php
import PluralForms.Proofs.Document.Html
import PluralForms.Proofs.Formula.Spelling
import PluralForms.Proofs.Formula.Unambiguous
import PluralForms.Proofs.SampleList.Grammar
import PluralForms.Proofs.SampleList.Coverage
import PluralForms.Proofs.SampleList.Interior
import PluralForms.Proofs.Text.Squeeze
import PluralForms.Proofs.CategoryRule.Entry
import PluralForms.Proofs.Locale.Pieces
import PluralForms.Proofs.Locale.Dependence
import PluralForms.Proofs.Table.Traversal
import PluralForms.Proofs.Text.Bytes
import PluralForms.Proofs.Locale.Loading
import PluralForms.Proofs.Rule.Folding
