import TractorRules.Main
import TractorRules.Service
import TractorRules.Proofs.Trump.Order
import TractorRules.Proofs.TrickUnit.Cards
import TractorRules.Proofs.Copies
import TractorRules.Proofs.Hands
import TractorRules.Proofs.Grouping.Run
import TractorRules.Proofs.Grouping.Combine
import TractorRules.Proofs.Grouping.Cover
import TractorRules.Proofs.Format.Matching
import TractorRules.Proofs.Format.Decomposition
import TractorRules.Proofs.Format.Preference
import TractorRules.Proofs.Trick.Follow
import TractorRules.Proofs.Trick.Offer
import TractorRules.Proofs.Trick.Ties
import TractorRules.Proofs.Trick.Course
import TractorRules.Proofs.Bidding.Offer
import TractorRules.Proofs.Bidding.Climb
import TractorRules.Proofs.Bidding.Length
import TractorRules.Proofs.Format.Matches
import TractorRules.Proofs.Grouping.Suit
import TractorRules.Proofs.Grouping.Enumeration
import TractorRules.Proofs.Format.Rows
import TractorRules.Proofs.Trick.Renege
import TractorRules.Proofs.Trick.Protection
import TractorRules.Proofs.Operation.Failures
import TractorRules.Proofs.Trick.Copy
import TractorRules.Proofs.Trick.Runs
import TractorRules.Proofs.Operation.Refusals
import TractorRules.Proofs.Operation.Rewritten
import TractorRules.Proofs.Scoring.Result
import TractorRules.Proofs.Scoring.Threshold
import TractorRules.Proofs.Operation.Scores
import TractorRules.Proofs.Grouping.Compact
import TractorRules.Proofs.Format.Weaker
import TractorRules.Proofs.Format.Throw
import TractorRules.Proofs.Grouping.Product
import TractorRules.Proofs.Grouping.BestFirst
import TractorRules.Proofs.Bidding.Wider
import TractorRules.Proofs.Scoring.Table
import TractorRules.Proofs.Scoring.Gains
import TractorRules.Proofs.Wire.RoundTrip
import TractorRules.Proofs.Operation.Plays
import TractorRules.Proofs.Operation.Suits
import TractorRules.Proofs.Counts
import TractorRules.Proofs.TrickUnit.Description
import TractorRules.Proofs.Operation.Descriptions
import TractorRules.Proofs.Format.EarlyStop
