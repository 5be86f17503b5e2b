import ThemeTokens.File.Store
import ThemeTokens.Main
import ThemeTokens.Proofs.Config.Order
import ThemeTokens.Proofs.Css.Strings
import ThemeTokens.Proofs.Legacy.Overrides
import ThemeTokens.Proofs.Legacy.SingleTheme
import ThemeTokens.Proofs.Lint.Agreement
import ThemeTokens.Proofs.Modern.Cascade
import ThemeTokens.Proofs.Modern.Leftover
import ThemeTokens.Proofs.Modern.Reading
import ThemeTokens.Proofs.Modern.Supply
import ThemeTokens.Proofs.Reference.Keyword
import ThemeTokens.Proofs.Reference.Leftover
import ThemeTokens.Proofs.Token.Layers
import ThemeTokens.Proofs.Isolation
import ThemeTokens.Proofs.Legacy.Settled
import ThemeTokens.Proofs.Modern.Properties
import ThemeTokens.Proofs.Modern.DarkBlocks
import ThemeTokens.Proofs.Config.RawForm
import ThemeTokens.Proofs.Stylesheet.Plain
import ThemeTokens.Proofs.Stylesheet.Kept
import ThemeTokens.Proofs.ScopedName
import ThemeTokens.Proofs.Reference.Blame
import ThemeTokens.Proofs.Selector.Scoping
import ThemeTokens.Proofs.Selector.Branches
import ThemeTokens.Proofs.Config.Components
import ThemeTokens.Proofs.Config.Anchor
import ThemeTokens.Proofs.Modern.Author
import ThemeTokens.Proofs.Modern.Literal
import ThemeTokens.Proofs.Culprit
import ThemeTokens.Proofs.Selector.Markers
import ThemeTokens.Proofs.ScopedName.Injective
import ThemeTokens.Proofs.Lint.Suggestions
import ThemeTokens.Proofs.Modern.Grouping
import ThemeTokens.Proofs.Selector.Rejoining
import ThemeTokens.Proofs.Shortcut
