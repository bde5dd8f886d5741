import MonkeyLang.Main
import MonkeyLang.Json.Reader
import MonkeyLang.Report
import MonkeyLang.Scope.Render
import MonkeyLang.Syntax.Equality
import MonkeyLang.Proofs.Syntax.RoundTrip
import MonkeyLang.Proofs.Syntax.Header
import MonkeyLang.Proofs.Syntax.Json
import MonkeyLang.Proofs.CommandLine.Tokens
import MonkeyLang.Proofs.Eval.Arithmetic
import MonkeyLang.Proofs.Eval.Equality
import MonkeyLang.Proofs.Eval.History
import MonkeyLang.Proofs.Eval.Lexical
import MonkeyLang.Proofs.Eval.Literal
import MonkeyLang.Proofs.Eval.Mention
import MonkeyLang.Proofs.Eval.Placement
import MonkeyLang.Proofs.Eval.Written
import MonkeyLang.Proofs.Parser.Conclusion
import MonkeyLang.Proofs.Session.Lines
import MonkeyLang.Proofs.Session.Listing
import MonkeyLang.Proofs.Token.Literal
import MonkeyLang.Proofs.Token.Reader
import MonkeyLang.Proofs.Token.Surroundings
